import Stencil.Proofs.Marker.RoundTrip

/-!
# Keys in markers

A marker takes its key apart at every colon, a condition cuts its key once, at the first colon.
This file fixes

* how a text looks when it has lost the blanks at both ends of each part between its colons
  (`Text.squeeze`), and that blanks at the ends of the whole make no difference to it;
* which key a marker without pipes denotes, given the key that its text reads as
  (`Template.denotes_cutAtColons_iff`).

So a marker and a condition read a key in the same texts, in the same namespace, and with the same
name but for the blanks around the colons inside it.
-/

namespace Stencil

namespace Text

/-! ## 1. Blanks around colons -/

/-- A run of characters without the blanks at the ends of its parts between colons. -/
def squeezeChars (cs : List Char) : List Char :=
  [':'].intercalate ((cs.splitOn ':').map trimChars)

/-- A text without the blanks at the ends of its parts between colons. -/
def squeeze (s : String) : String :=
  ":".intercalate ((cutAtColons s).map trim)

theorem toList_squeeze (s : String) : (squeeze s).toList = squeezeChars s.toList := by
  rw [squeeze, toList_intercalate_colon, cutAtColons, List.map_map, List.map_map, squeezeChars]
  refine congrArg _ (List.map_congr_left fun cs _ => ?_)
  rw [Function.comp_apply, Function.comp_apply, toList_trim, String.toList_ofList]

theorem squeezeChars_of_uncut {cs : List Char} (h : ':' ∉ cs) :
    squeezeChars cs = trimChars cs := by
  rw [squeezeChars, List.splitOn_eq_singleton h, List.map_singleton, List.intercalate_singleton]

/-- **The first part loses its blanks, and then the others do.** -/
theorem squeezeChars_append_colon {before : List Char} (h : ':' ∉ before) (after : List Char) :
    squeezeChars (before ++ ':' :: after) = trimChars before ++ ':' :: squeezeChars after := by
  rw [squeezeChars, squeezeChars, List.splitOn_append_cons_self_of_not_mem h, List.map_cons,
    List.intercalate_cons_of_ne_nil (by simp), List.append_assoc, List.singleton_append]

/-- A text either has no colon or is cut at its first one. -/
theorem uncut_or_append_colon (cs : List Char) :
    ':' ∉ cs ∨ ∃ before after, ':' ∉ before ∧ cs = before ++ ':' :: after := by
  cases hsplit : splitFirst ':' cs with
  | none => exact .inl (splitFirst_eq_none_iff.mp hsplit)
  | some cut =>
    obtain ⟨hcs, hbefore⟩ := eq_append_of_splitFirst hsplit
    exact .inr ⟨cut.1, cut.2, hbefore, hcs⟩

theorem not_mem_blanks {blanks : List Char} (h : ∀ c ∈ blanks, isBlank c = true) :
    ':' ∉ blanks :=
  fun hcolon => absurd (h ':' hcolon) (by decide)

theorem squeezeChars_blanks_append {blanks : List Char} (h : ∀ c ∈ blanks, isBlank c = true)
    (cs : List Char) : squeezeChars (blanks ++ cs) = squeezeChars cs := by
  have hblanks := not_mem_blanks h
  rcases uncut_or_append_colon cs with huncut | ⟨before, after, hbefore, rfl⟩
  · rw [squeezeChars_of_uncut (by simp [hblanks, huncut]), squeezeChars_of_uncut huncut,
      trimChars_blanks_append h]
  · rw [← List.append_assoc, squeezeChars_append_colon (by simp [hblanks, hbefore]),
      squeezeChars_append_colon hbefore, trimChars_blanks_append h]

/-- Blanks behind a text are behind its last part. -/
theorem squeezeChars_append_blanks {blanks : List Char} (h : ∀ c ∈ blanks, isBlank c = true)
    (cs : List Char) : squeezeChars (cs ++ blanks) = squeezeChars cs := by
  -- the induction is on the number of characters that are left behind the first colon
  induction hlength : cs.length using Nat.strongRecOn generalizing cs with
  | ind n ih =>
    rcases uncut_or_append_colon cs with huncut | ⟨before, after, hbefore, rfl⟩
    · rw [squeezeChars_of_uncut (by simp [not_mem_blanks h, huncut]), squeezeChars_of_uncut huncut,
        trimChars_append_blanks h]
    · have hshorter : after.length < n := by
        rw [← hlength, List.length_append, List.length_cons]
        omega
      rw [List.append_assoc, List.cons_append, squeezeChars_append_colon hbefore,
        squeezeChars_append_colon hbefore, ih _ hshorter after rfl]

/-- **Blanks at the ends of a text** are lost with those around its colons. -/
theorem squeezeChars_trimChars (cs : List Char) :
    squeezeChars (trimChars cs) = squeezeChars cs := by
  obtain ⟨front, back, hcs, hfront, hback⟩ := exists_blanks_append cs
  conv_rhs => rw [hcs]
  rw [squeezeChars_blanks_append hfront, squeezeChars_append_blanks hback]

/-- Nothing is left exactly of the blank texts: a colon is never lost. -/
theorem squeezeChars_eq_nil_iff {cs : List Char} : squeezeChars cs = [] ↔ trimChars cs = [] := by
  constructor
  · intro hnil
    rcases uncut_or_append_colon cs with huncut | ⟨before, after, hbefore, rfl⟩
    · rwa [squeezeChars_of_uncut huncut] at hnil
    · rw [squeezeChars_append_colon hbefore] at hnil
      simp at hnil
  · intro hnil
    rw [← squeezeChars_trimChars, hnil]
    rfl

theorem squeeze_trim (s : String) : squeeze (trim s) = squeeze s := by
  rw [← String.toList_inj, toList_squeeze, toList_squeeze, toList_trim, squeezeChars_trimChars]

theorem squeeze_eq_empty_iff {s : String} : squeeze s = "" ↔ trim s = "" := by
  rw [← String.toList_eq_nil_iff, ← String.toList_eq_nil_iff, toList_squeeze, toList_trim,
    squeezeChars_eq_nil_iff]

/-- **Nothing is lost** exactly if no part has blanks at its ends. -/
theorem squeeze_eq_self_iff {s : String} :
    squeeze s = s ↔ ∀ part ∈ cutAtColons s, trim part = part := by
  constructor
  · intro hsame
    have huncut : ∀ part ∈ (cutAtColons s).map trim, ':' ∉ part.toList := by
      intro part hpart
      obtain ⟨whole, hwhole, rfl⟩ := List.mem_map.mp hpart
      rw [toList_trim]
      exact fun hcolon => (infix_of_mem_cutAtColons hwhole).2 ((trimChars_isInfix _).subset hcolon)
    have hparts : cutAtColons (squeeze s) = (cutAtColons s).map trim :=
      cutAtColons_intercalate (by simp [cutAtColons_ne_nil]) huncut
    rw [hsame] at hparts
    have hid : (cutAtColons s).map trim = (cutAtColons s).map id := by rw [← hparts, List.map_id]
    exact fun part hpart => List.map_inj_left.mp hid part hpart
  · intro hparts
    have hid : (cutAtColons s).map trim = cutAtColons s := by
      conv_rhs => rw [← List.map_id (cutAtColons s)]
      exact List.map_congr_left hparts
    rw [squeeze, hid, intercalate_cutAtColons]

end Text

/-! ## 2. The key of a marker -/

/-- A key without the blanks at the ends of the parts of its name. -/
def Key.squeezed (k : Key) : Key :=
  ⟨k.space, Text.squeeze k.name⟩

/-- **A key has nothing to lose** exactly if no part of its name has blanks at its ends. -/
theorem Key.squeezed_eq_self_iff {k : Key} :
    k.squeezed = k ↔ ∀ part ∈ k.nameParts, Text.trim part = part := by
  rw [k.nameParts_eq, ← Text.squeeze_eq_self_iff]
  obtain ⟨space, name⟩ := k
  simp [squeezed]

/-- **The key of a text whose parts have lost their blanks** is the key of the text, without the
    blanks at the ends of the parts of its name. -/
theorem Key.parse?_trim_parts {before : String} (h : ':' ∉ before.toList) (after : String) :
    parse? (Text.trim before ++ ":" ++ Text.squeeze after) =
      (parse? (before ++ ":" ++ after)).map squeezed := by
  have hcolon : ':' ∉ (Text.trim before).toList := by
    rw [Text.toList_trim]
    exact fun hmem => h ((Text.trimChars_isInfix _).subset hmem)
  have htrim : Text.trim (Text.trim before) = Text.trim before := by
    rw [Text.trim_eq_self_iff, Text.toList_trim, Text.trimChars_trimChars]
  have hname : Text.trim (Text.squeeze after) = Text.squeeze after := by
    refine trim_intercalate fun part hpart => ?_
    obtain ⟨whole, -, rfl⟩ := List.mem_map.mp hpart
    rw [Text.trim_eq_self_iff, Text.toList_trim, Text.trimChars_trimChars]
  rw [parse?_append hcolon htrim hname, parse?_append_colon h]
  simp only [Text.squeeze_eq_empty_iff]
  split
  · rfl
  · rw [Option.map_some, squeezed, Text.squeeze_trim]

namespace Template

open Lexeme

/-- **A stage that is cut at the colons of a text denotes** a call without filters, and only if the
    text is a key. -/
theorem denotes_cutAtColons_iff {k : String} {c : Call} :
    Denotes [(Text.cutAtColons k).map Text.trim] c ↔
      c.filters = [] ∧ (Key.parse? k).map Key.squeezed = some c.key := by
  have hfilters : ∀ {stage stages : List String} {fs : List FilterCall},
      [stage] = stages :: fs.map (fun f => f.name :: f.args) ↔ stage = stages ∧ fs = [] := by
    intro stage stages fs
    rw [List.cons.injEq, eq_comm (a := []), List.map_eq_nil_iff]
  rcases Text.uncut_or_append_colon k.toList with huncut | ⟨front, back, hfront, hk⟩
  · have hnone : Key.parse? k = none := by
      rw [Key.parse?, Key.ofChars?, Text.splitFirst_eq_none_iff.mpr huncut]
    rw [Text.cutAtColons_of_uncut huncut, hnone]
    constructor
    · intro hdenotes
      obtain ⟨space, name, hstages, hne, -⟩ := hdenotes.exists_key
      have hparts := (hfilters.mp hstages).1
      exact absurd (List.cons.inj hparts).2.symm hne
    · intro hkey
      cases hkey.2
  · obtain ⟨before, rfl⟩ : ∃ before : String, front = before.toList := ⟨.ofList front, by simp⟩
    obtain ⟨after, rfl⟩ : ∃ after : String, back = after.toList := ⟨.ofList back, by simp⟩
    rw [← Text.toList_append_colon, String.toList_inj] at hk
    subst hk
    rw [Text.cutAtColons_append_colon hfront, List.map_cons, ← Key.parse?_trim_parts hfront]
    constructor
    · intro hdenotes
      obtain ⟨space, name, hstages, -, hkey⟩ := hdenotes.exists_key
      obtain ⟨hparts, hnone⟩ := hfilters.mp hstages
      obtain ⟨rfl, rfl⟩ := List.cons.inj hparts
      exact ⟨hnone, hkey⟩
    · intro hcall
      obtain ⟨hnone, hkey⟩ := hcall
      exact
        { exists_key := ⟨Text.trim before, (Text.cutAtColons after).map Text.trim,
            hfilters.mpr ⟨rfl, hnone⟩, by simp [Text.cutAtColons_ne_nil], hkey⟩
          named := by simp [hnone] }

/-- A text as the only thing in a marker. -/
def marked (k : String) : String :=
  "$\x7b" ++ k ++ "\x7d"

/-- **What a marker with an inert text in it is read as.** -/
theorem read_marked_eq_ok_iff {k : String} (h : Inert k) {path : DocPath} {e : Expr} :
    read (marked k) path = .ok e ↔ ∃ c : Call, c.filters = [] ∧
      (Key.parse? k).map Key.squeezed = some c.key ∧ e = .interpolated [.call c] := by
  have hparts : ∀ stage ∈ [Text.cutAtColons k], ∀ s ∈ stage, Inert s ∧ ':' ∉ s.toList := by
    intro stage hstage s hs
    rw [List.mem_singleton.mp hstage] at hs
    exact ⟨h.of_mem_cutAtColons hs, (Text.infix_of_mem_cutAtColons hs).2⟩
  have hbody := isBody_ofStages hparts
  have htext : (marked k).toList =
      ([Part.marker (ofStages [Text.cutAtColons k])].flatMap Part.lexemes).flatMap spelling := by
    simp [Part.lexemes, spelling, spelling_ofStages, Text.intercalate_cutAtColons, marked]
  have hopening : hasOpening (marked k).toList = true := by
    simp [marked, hasOpening]
  have hstages : stagesIn (kindsOf (ofStages [Text.cutAtColons k])) =
      [(Text.cutAtColons k).map Text.trim] :=
    stagesIn_ofStages (by simp) (by simp [Text.cutAtColons_ne_nil])
  rw [read_parts_eq_ok_iff hopening (.marker hbody .nil) htext]
  constructor
  · intro hpieces
    obtain ⟨ps, hreads, he⟩ := hpieces
    obtain ⟨p, others, hp, hothers, rfl⟩ := List.forall₂_cons_left_iff.mp hreads
    cases hothers
    cases hp with
    | @marker _ c hdenotes =>
      rw [hstages, denotes_cutAtColons_iff] at hdenotes
      exact ⟨c, hdenotes.1, hdenotes.2, he⟩
  · intro hcall
    obtain ⟨c, hfilters, hkey, he⟩ := hcall
    have hdenotes := denotes_cutAtColons_iff.mpr ⟨hfilters, hkey⟩
    rw [← hstages] at hdenotes
    exact ⟨[.call c], .cons (.marker hdenotes) .nil, he⟩

end Template

/-- **A marker and a condition read the same texts as keys.** A text without pipes, braces and
    openings is parsed in a marker exactly if it is a key. The marker is then one call without
    filters, and its key is that key without the blanks around the colons in its name: the same key
    exactly if no part of the name has blanks at its ends. -/
theorem Template.text_marked_eq (k : String) (h : Inert k) (path : DocPath)
    (options : ParseOptions) (depth : Nat) (found : Findings) :
    (Parse.text (marked k) path options depth found).1 =
      (Key.parse? k).map (fun key => .interpolated [.call ⟨key.squeezed, []⟩]) ∧
    ∀ key, Key.parse? k = some key →
      (key.squeezed = key ↔ ∀ part ∈ key.nameParts, Text.trim part = part) := by
  refine ⟨?_, fun key _ => Key.squeezed_eq_self_iff⟩
  cases hkey : Key.parse? k with
  | some key =>
    have hread : read (marked k) path = .ok (.interpolated [.call ⟨key.squeezed, []⟩]) :=
      (read_marked_eq_ok_iff h).mpr ⟨⟨key.squeezed, []⟩, rfl, by rw [hkey]; rfl, rfl⟩
    rw [Parse.text_eq_pure hread]
    rfl
  | none =>
    rcases hresult : Parse.text (marked k) path options depth found with ⟨_ | e, after⟩
    · rfl
    · obtain ⟨c, -, hc, -⟩ := (read_marked_eq_ok_iff h).mp (Parse.read_of_text hresult)
      rw [hkey] at hc
      cases hc

/-- Blanks at both ends of a key and around the colons of its name. -/
theorem Template.text_marked_eq_user : Inert " user : na : me " ∧
    (Parse.text "$\x7b user : na : me \x7d" .root .default 0 ⟨Report.withLimit 1, false⟩).1 =
      some (.interpolated [.call ⟨⟨"user", "na:me"⟩, []⟩]) ∧
    ¬∀ part ∈ Key.nameParts ⟨"user", "na : me"⟩, Text.trim part = part := by
  have hinert : Inert " user : na : me " := by decide
  have hkey : Key.parse? " user : na : me " = some ⟨"user", "na : me"⟩ := by decide
  obtain ⟨hcall, hsame⟩ := Template.text_marked_eq " user : na : me " hinert .root .default 0
    ⟨Report.withLimit 1, false⟩
  refine ⟨hinert, ?_, fun h => absurd ((hsame _ hkey).mpr h) (by decide)⟩
  rw [hkey] at hcall
  exact hcall

/-- **Blanks around a colon inside a name** are kept by a condition and lost in a marker. -/
theorem Template.text_marked_ne_key : Inert "ns:a : b" ∧
    Key.parse? "ns:a : b" = some ⟨"ns", "a : b"⟩ ∧
    (Parse.text (marked "ns:a : b") .root .default 0 ⟨Report.withLimit 1, false⟩).1 =
      some (.interpolated [.call ⟨⟨"ns", "a:b"⟩, []⟩]) ∧
    (Parse.text (marked "ns:a : b") .root .default 0 ⟨Report.withLimit 1, false⟩).1 ≠
      (Key.parse? "ns:a : b").map (fun key => .interpolated [.call ⟨key, []⟩]) := by
  have hcondition : Key.parse? "ns:a : b" = some ⟨"ns", "a : b"⟩ := by decide
  have hmarker : (Parse.text (marked "ns:a : b") .root .default 0 ⟨Report.withLimit 1, false⟩).1 =
      some (.interpolated [.call ⟨⟨"ns", "a:b"⟩, []⟩]) := by rfl
  refine ⟨by decide, hcondition, hmarker, ?_⟩
  rw [hmarker, hcondition]
  simp

end Stencil
