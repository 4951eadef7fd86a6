import Stencil.Proofs.Value
import Stencil.Resolver.Standard

/-!
# What a resolver answers

A key is tried name by name: the whole name first, then what stands before its last dot, and so on
to the left. A resolver answers with the first of these names that one of its layers has a handler
for. This file fixes

* the names of a key in the order in which they are tried (`Key.candidates`), and that a resolver
  runs along them (`Resolver.locate?_eq`);
* which name a resolver matches (`Resolver.Matches`), said without an order: the longest one that
  has a handler, where the wildcard of a namespace is a handler for every name in it;
* what composition does to a key. The two resolvers are searched length by length and not one after
  the other, so the second one wins with a longer name;
* what a key has to do with the handlers of all layers (`Resolver.handlers`): one of them answers,
  and a key that is owned fails only with an error of theirs.
-/

namespace Stencil

/-! ## 1. The names of a key -/

/-- A key that may answer another one, and the path that is left to walk then, if there is one. -/
structure Candidate where
  key : Key
  rest : Option String

namespace Candidate

/-- The part of a name before a dot, with the part behind it left to walk. -/
def ofSplit (space : String) (parts : List Char × List Char) : Candidate :=
  ⟨⟨space, String.ofList parts.1⟩, some (String.ofList parts.2)⟩

/-- How much of the name is looked up. -/
def reach (c : Candidate) : Nat :=
  c.key.name.length

@[simp] theorem reach_ofSplit (space : String) (parts : List Char × List Char) :
    (ofSplit space parts).reach = parts.1.length :=
  String.length_ofList

end Candidate

namespace Key

/-- What a key is tried as, the whole name first and then shorter and shorter parts of it. -/
def candidates (key : Key) : List Candidate :=
  ⟨key, none⟩ :: (Text.splits '.' key.name.toList).reverse.map (Candidate.ofSplit key.space)

/-- A name that a key may be answered by: its own, or what stands before one of the dots in it. -/
def Stem (key : Key) (name : String) : Prop :=
  key.name = name ∨ ∃ path, key.name = name ++ "." ++ path

theorem mem_splits_name {key : Key} {parts : List Char × List Char} :
    parts ∈ Text.splits '.' key.name.toList ↔
      key.name = String.ofList parts.1 ++ "." ++ String.ofList parts.2 := by
  obtain ⟨before, after⟩ := parts
  rw [Text.mem_splits_iff, ← String.toList_inj]
  simp

/-- Every candidate is for a name of the key. -/
theorem stem_of_mem_candidates {key : Key} {c : Candidate} (h : c ∈ key.candidates) :
    c.key.space = key.space ∧ key.Stem c.key.name := by
  rcases List.mem_cons.mp h with rfl | hsplit
  · exact ⟨rfl, .inl rfl⟩
  · obtain ⟨parts, hparts, rfl⟩ := List.mem_map.mp hsplit
    exact ⟨rfl, .inr ⟨_, mem_splits_name.mp (List.mem_reverse.mp hparts)⟩⟩

theorem mem_candidates_of_name {key : Key} {name path : String}
    (h : key.name = name ++ "." ++ path) :
    ⟨⟨key.space, name⟩, some path⟩ ∈ key.candidates := by
  have hparts : (name.toList, path.toList) ∈ Text.splits '.' key.name.toList :=
    mem_splits_name.mpr (by simpa using h)
  refine List.mem_cons_of_mem _ (List.mem_map.mpr ⟨_, List.mem_reverse.mpr hparts, ?_⟩)
  simp [Candidate.ofSplit]

/-- Every name of a key is tried. -/
theorem Stem.exists_candidate {key : Key} {name : String} (h : key.Stem name) :
    ∃ c ∈ key.candidates, c.key = ⟨key.space, name⟩ := by
  obtain rfl | ⟨path, hpath⟩ := h
  · exact ⟨_, List.mem_cons_self, rfl⟩
  · exact ⟨_, mem_candidates_of_name hpath, rfl⟩

/-- **The longest name is tried first**, and no two names are of one length. -/
theorem candidates_pairwise (key : Key) :
    key.candidates.Pairwise fun c d => d.reach < c.reach := by
  refine .cons (fun c hc => ?_) ?_
  · obtain ⟨parts, hparts, rfl⟩ := List.mem_map.mp hc
    have hname := congrArg String.length (mem_splits_name.mp (List.mem_reverse.mp hparts))
    have hdot : ".".length = 1 := rfl
    simp only [String.length_append, String.length_ofList, hdot] at hname
    show (Candidate.ofSplit key.space parts).reach < key.name.length
    rw [Candidate.reach_ofSplit]
    omega
  · rw [List.pairwise_map, List.pairwise_reverse]
    simpa using Text.splits_pairwise '.' key.name.toList

end Key

namespace Resolver

/-! ## 2. The name a resolver matches -/

variable {r a b : Resolver} {key : Key} {name other : String} {located : Located}

/-- The answer of a resolver to a candidate. -/
def answer? (r : Resolver) (c : Candidate) : Option Located :=
  (r.find? c.key).map fun handler => ⟨handler, c.key, c.rest⟩

/-- **The search for a handler runs along the candidates.** -/
theorem locate?_eq (r : Resolver) (key : Key) :
    r.locate? key = key.candidates.findSome? r.answer? := by
  unfold locate? Key.candidates
  rw [List.findSome?_cons, List.findSome?_map]
  cases hfind : r.find? key with
  | none => simp only [answer?, hfind, Option.map_none]; rfl
  | some handler => simp only [answer?, hfind, Option.map_some]

/-- **The answer to a key**, said without an order: the answer to a candidate, when no longer one
    has an answer. -/
theorem locate?_eq_some_iff :
    r.locate? key = some located ↔
      ∃ c ∈ key.candidates, r.answer? c = some located ∧
        ∀ d ∈ key.candidates, c.reach < d.reach → r.answer? d = none := by
  rw [locate?_eq, List.findSome?_eq_some_iff]
  constructor
  · rintro ⟨longer, c, shorter, hsplit, hc, hlonger⟩
    refine ⟨c, by simp [hsplit], hc, fun d hd hreach => hlonger d ?_⟩
    have hsorted := key.candidates_pairwise
    rw [hsplit] at hd hsorted
    have hshorter := (List.pairwise_cons.mp (List.pairwise_append.mp hsorted).2.1).1
    rcases List.mem_append.mp hd with hd | hd
    · exact hd
    · rcases List.mem_cons.mp hd with rfl | hd
      · exact absurd hreach (Nat.lt_irrefl _)
      · exact absurd hreach (Nat.lt_asymm (hshorter d hd))
  · rintro ⟨c, hmem, hc, hnone⟩
    obtain ⟨longer, shorter, hsplit⟩ := List.append_of_mem hmem
    have hsorted := key.candidates_pairwise
    rw [hsplit] at hsorted
    have hlonger := (List.pairwise_append.mp hsorted).2.2
    refine ⟨longer, c, shorter, hsplit, hc, fun d hd => hnone d ?_ ?_⟩
    · rw [hsplit]
      exact List.mem_append_left _ hd
    · exact hlonger d hd c List.mem_cons_self

/-- A resolver has a handler for a key as it is: its own, or the wildcard of the namespace. -/
def Handles (r : Resolver) (key : Key) : Prop :=
  ∃ layer ∈ r.layers, key ∈ layer.map Prod.fst ∨ Key.wildcard key.space ∈ layer.map Prod.fst

/-- **The name of a key that a resolver matches**: one that it has a handler for, and the longest
    of these. -/
structure Matches (r : Resolver) (key : Key) (name : String) : Prop where
  stem : key.Stem name
  handled : r.Handles ⟨key.space, name⟩
  longest : ∀ other, key.Stem other → r.Handles ⟨key.space, other⟩ → other.length ≤ name.length

theorem Matches.length_le (h : r.Matches key name) (hother : r.Matches key other) :
    other.length ≤ name.length :=
  h.longest other hother.stem hother.handled

theorem find?_isSome_iff : (r.find? key).isSome ↔ r.Handles key := by
  simp only [find?, Handles, inLayer?, List.findSome?_isSome_iff, Option.isSome_or,
    Bool.or_eq_true, Dictionary.get?_isSome_iff]

theorem answer?_isSome_iff {c : Candidate} : (r.answer? c).isSome ↔ r.Handles c.key := by
  rw [answer?, Option.isSome_map, find?_isSome_iff]

theorem key_of_answer? {c : Candidate} (h : r.answer? c = some located) : located.key = c.key := by
  obtain ⟨handler, -, rfl⟩ := Option.map_eq_some_iff.mp h
  rfl

/-- The search ends at the matched name. -/
theorem Matches.exists_located (h : r.Matches key name) :
    ∃ located, r.locate? key = some located ∧ located.key.name = name := by
  obtain ⟨c, hc, hkey⟩ := h.stem.exists_candidate
  obtain ⟨located, hlocated⟩ :=
    Option.isSome_iff_exists.mp (answer?_isSome_iff.mpr (hkey ▸ h.handled))
  refine ⟨located, locate?_eq_some_iff.mpr ⟨c, hc, hlocated, fun d hd hreach => ?_⟩, ?_⟩
  · obtain ⟨hspace, hstem⟩ := Key.stem_of_mem_candidates hd
    refine Option.not_isSome_iff_eq_none.mp fun hsome => ?_
    have hlength := h.longest _ hstem (hspace ▸ answer?_isSome_iff.mp hsome)
    rw [Candidate.reach, hkey] at hreach
    exact absurd hreach (Nat.not_lt.mpr hlength)
  · rw [key_of_answer? hlocated, hkey]

/-- The search ends at no other name. -/
theorem matches_of_locate? (h : r.locate? key = some located) :
    r.Matches key located.key.name := by
  obtain ⟨c, hc, hanswer, hlonger⟩ := locate?_eq_some_iff.mp h
  obtain ⟨hspace, hstem⟩ := Key.stem_of_mem_candidates hc
  rw [key_of_answer? hanswer]
  refine ⟨hstem, ?_, fun other hother hhandled => ?_⟩
  · exact hspace ▸ answer?_isSome_iff.mp (hanswer ▸ rfl)
  · obtain ⟨d, hd, hkey⟩ := hother.exists_candidate
    refine Nat.le_of_not_lt fun hreach => ?_
    have hnone := hlonger d hd (by rwa [Candidate.reach, Candidate.reach, hkey])
    have hsome := answer?_isSome_iff.mpr (hkey ▸ hhandled : r.Handles d.key)
    simp [hnone] at hsome

/-- **The matched name can be computed**: it is the name that the search ends at. -/
theorem matches_iff :
    r.Matches key name ↔ (r.locate? key).map (fun located => located.key.name) = some name := by
  rw [Option.map_eq_some_iff]
  exact ⟨Matches.exists_located, fun ⟨_, hlocated, hname⟩ => hname ▸ matches_of_locate? hlocated⟩

instance (r : Resolver) (key : Key) (name : String) : Decidable (r.Matches key name) :=
  decidable_of_iff _ matches_iff.symm

theorem locate?_eq_none (h : ¬r.owns key = true) : r.locate? key = none :=
  Option.not_isSome_iff_eq_none.mp h

/-- A resolver owns the keys of which it matches a name. -/
theorem owns_iff : r.owns key = true ↔ ∃ name, r.Matches key name := by
  simp only [matches_iff, owns, ← Option.isSome_iff_exists, Option.isSome_map]

/-- A resolver has no answer to what is longer than the name it matches. -/
theorem answer?_eq_none {c : Candidate} (hc : c ∈ key.candidates)
    (h : ∀ name, r.Matches key name → name.length < c.reach) : r.answer? c = none := by
  refine Option.not_isSome_iff_eq_none.mp fun hsome => ?_
  have hfound : (r.locate? key).isSome := by
    rw [locate?_eq]
    exact List.findSome?_isSome_iff.mpr ⟨c, hc, hsome⟩
  obtain ⟨name, hname⟩ := owns_iff.mp hfound
  obtain ⟨hspace, hstem⟩ := Key.stem_of_mem_candidates hc
  have hlength := hname.longest _ hstem (hspace ▸ answer?_isSome_iff.mp hsome)
  exact absurd (h name hname) (Nat.not_lt.mpr hlength)

/-! ## 3. Composition -/

theorem compose_assoc (a b c : Resolver) :
    (a.compose b).compose c = a.compose (b.compose c) := by
  induction a with
  | last front => rfl
  | chain front delegate ih => rw [compose, compose, compose, ih]

/-- Taken as it is, a key goes to the first resolver and then to the second. -/
theorem answer?_compose (a b : Resolver) (c : Candidate) :
    (a.compose b).answer? c = (a.answer? c).or (b.answer? c) := by
  simp only [answer?, find?, layers_compose, List.findSome?_append, Option.map_or]

theorem owns_compose : (a.compose b).owns key = true ↔ a.owns key = true ∨ b.owns key = true := by
  simp only [owns, locate?_eq, List.findSome?_isSome_iff, answer?_compose, Option.isSome_or,
    Bool.or_eq_true, and_or_left, exists_or]

/-- The first resolver answers when it matches at least as much of the name. -/
theorem locate?_compose_of_le (ha : a.Matches key name)
    (hb : ∀ other, b.Matches key other → other.length ≤ name.length) :
    (a.compose b).locate? key = a.locate? key := by
  obtain ⟨located, hlocated, rfl⟩ := ha.exists_located
  obtain ⟨c, hc, hanswer, hlonger⟩ := locate?_eq_some_iff.mp hlocated
  rw [key_of_answer? hanswer] at hb
  rw [hlocated]
  refine locate?_eq_some_iff.mpr ⟨c, hc, ?_, fun d hd hreach => ?_⟩
  · rw [answer?_compose, hanswer, Option.some_or]
  · rw [answer?_compose, hlonger d hd hreach, Option.none_or]
    exact answer?_eq_none hd fun other hother => Nat.lt_of_le_of_lt (hb other hother) hreach

/-- The second resolver answers when it matches more of the name. -/
theorem locate?_compose_of_lt (hb : b.Matches key other)
    (ha : ∀ name, a.Matches key name → name.length < other.length) :
    (a.compose b).locate? key = b.locate? key := by
  obtain ⟨located, hlocated, rfl⟩ := hb.exists_located
  obtain ⟨c, hc, hanswer, hlonger⟩ := locate?_eq_some_iff.mp hlocated
  rw [key_of_answer? hanswer] at ha
  have hnone : ∀ d ∈ key.candidates, c.reach ≤ d.reach → a.answer? d = none :=
    fun _ hd hreach => answer?_eq_none hd fun name hname =>
      Nat.lt_of_lt_of_le (ha name hname) hreach
  rw [hlocated]
  refine locate?_eq_some_iff.mpr ⟨c, hc, ?_, fun d hd hreach => ?_⟩
  · rw [answer?_compose, hnone c hc (Nat.le_refl _), Option.none_or, hanswer]
  · rw [answer?_compose, hnone d hd (Nat.le_of_lt hreach), Option.none_or, hlonger d hd hreach]

/-- The second resolver answers a key of which the first matches nothing. -/
theorem locate?_compose_of_forall_not (ha : ∀ name, ¬a.Matches key name) :
    (a.compose b).locate? key = b.locate? key := by
  by_cases hb : ∃ other, b.Matches key other
  · obtain ⟨other, hother⟩ := hb
    exact locate?_compose_of_lt hother fun name hname => absurd hname (ha name)
  · have hneither : ¬(a.compose b).owns key = true := by
      rw [owns_compose, owns_iff, owns_iff]
      exact not_or.mpr ⟨not_exists.mpr ha, hb⟩
    rw [locate?_eq_none hneither, locate?_eq_none (mt owns_iff.mp hb)]

/-- What is resolved depends on the answer to the key alone. -/
theorem resolve_congr (h : a.locate? key = b.locate? key) (context : Context) :
    a.resolve key context = b.resolve key context := by
  simp only [resolve, h]

/-- **Composition.** It puts the layers one behind the other, so it does not matter how three
    resolvers are bracketed; it owns what one of the two owns; and a key goes to the first when
    that one matches at least as much of the name as the second, and to the second when that one
    matches more or the first matches nothing. -/
theorem compose_laws (a b c : Resolver) (key : Key) (context : Context) :
    (a.compose b).layers = a.layers ++ b.layers ∧
    ((a.compose b).compose c).resolve key context =
      (a.compose (b.compose c)).resolve key context ∧
    ((a.compose b).owns key = true ↔ a.owns key = true ∨ b.owns key = true) ∧
    (∀ name, a.Matches key name → (∀ other, b.Matches key other → other.length ≤ name.length) →
      (a.compose b).resolve key context = a.resolve key context) ∧
    (∀ other, b.Matches key other → (∀ name, a.Matches key name → name.length < other.length) →
      (a.compose b).resolve key context = b.resolve key context) ∧
    ((∀ name, ¬a.Matches key name) →
      (a.compose b).resolve key context = b.resolve key context) := by
  refine ⟨layers_compose a b, by rw [compose_assoc], owns_compose, ?_, ?_, ?_⟩
  · exact fun name ha hb => resolve_congr (locate?_compose_of_le ha hb) context
  · exact fun other hb ha => resolve_congr (locate?_compose_of_lt hb ha) context
  · exact fun ha => resolve_congr (locate?_compose_of_forall_not ha) context

/-- The longer name `x.y` wins, whichever of the two resolvers stands in front. -/
theorem compose_laws_longer_name :
    let short := ofHandlers [(⟨"ns", "x"⟩, Handler.const (.text "short"))]
    let long := ofHandlers [(⟨"ns", "x.y"⟩, Handler.const (.text "long"))]
    let key : Key := ⟨"ns", "x.y.z"⟩
    short.Matches key "x" ∧ long.Matches key "x.y" ∧
    (short.compose long).resolve key .empty = long.resolve key .empty ∧
    (long.compose short).resolve key .empty = long.resolve key .empty := by
  intro short long key
  have hshort : short.Matches key "x" := by decide +kernel
  have hlong : long.Matches key "x.y" := by decide +kernel
  obtain ⟨-, -, -, -, hsecond, -⟩ := compose_laws short long long key .empty
  obtain ⟨-, -, -, hfirst, -⟩ := compose_laws long short short key .empty
  refine ⟨hshort, hlong, hsecond _ hlong fun name hname => ?_, hfirst _ hlong fun name hname => ?_⟩
  · exact Nat.lt_of_le_of_lt (hshort.length_le hname) (by decide)
  · exact Nat.le_trans (hshort.length_le hname) (by decide)

/-! ## 4. Handlers -/

/-- The handlers of all layers. -/
def handlers (r : Resolver) : List Handler :=
  r.layers.flatMap fun layer => layer.map Prod.snd

variable {handler : Handler} {context context' : Context} {error : EvalError}

theorem mem_handlers_iff :
    handler ∈ r.handlers ↔ ∃ layer ∈ r.layers, ∃ key, (key, handler) ∈ layer := by
  simp [handlers]

/-- A handler goes to the front layer. -/
theorem layers_add (r : Resolver) (key : Key) (handler : Handler) :
    ∃ front behind, r.layers = front :: behind ∧
      (r.add key handler).layers = Dictionary.insert front key handler :: behind := by
  cases r with
  | last front => exact ⟨front, [], rfl, rfl⟩
  | chain front delegate => exact ⟨front, delegate.layers, rfl, rfl⟩

theorem mem_handlers_add {added : Handler} (h : handler ∈ (r.add key added).handlers) :
    handler ∈ r.handlers ∨ handler = added := by
  obtain ⟨front, behind, hold, hadd⟩ := layers_add r key added
  rw [mem_handlers_iff, hadd] at h
  rw [mem_handlers_iff, hold]
  obtain ⟨layer, hlayer, other, hentry⟩ := h
  rcases List.mem_cons.mp hlayer with rfl | hbehind
  · rcases Dictionary.mem_of_mem_insert hentry with hfront | heq
    · exact .inl ⟨front, List.mem_cons_self, other, hfront⟩
    · exact .inr (Prod.mk.inj heq).2
  · exact .inl ⟨layer, List.mem_cons_of_mem front hbehind, other, hentry⟩

theorem mem_handlers_foldl_add {entries : List (Key × Handler)}
    (h : handler ∈ (entries.foldl (fun r entry => r.add entry.1 entry.2) r).handlers) :
    handler ∈ r.handlers ∨ handler ∈ entries.map Prod.snd := by
  induction entries generalizing r with
  | nil => exact .inl h
  | cons entry rest ih =>
    rw [List.map_cons, List.mem_cons]
    rcases ih h with hadd | hrest
    · exact (mem_handlers_add hadd).imp_right .inl
    · exact .inr (.inr hrest)

/-- **The resolver of a list of handlers has no others.** -/
theorem mem_of_mem_handlers_ofHandlers {entries : List (Key × Handler)}
    (h : handler ∈ (ofHandlers entries).handlers) : handler ∈ entries.map Prod.snd :=
  (mem_handlers_foldl_add h).resolve_left List.not_mem_nil

/-- The handlers of the standard keys. -/
theorem mem_handlers_standard (h : handler ∈ standard.handlers) :
    (∃ v : Value, v.IsScalar ∧ handler = .const v) ∨ handler = numberLiteral ∨
      handler = .ofContext := by
  have hentries := mem_of_mem_handlers_ofHandlers h
  simp only [List.map_cons, List.map_nil, List.mem_cons, List.not_mem_nil, or_false] at hentries
  rcases hentries with rfl | rfl | rfl | rfl | rfl | rfl
  · exact .inl ⟨_, .bool true, rfl⟩
  · exact .inl ⟨_, .bool false, rfl⟩
  · exact .inr (.inl rfl)
  · exact .inl ⟨_, .number _, rfl⟩
  · exact .inl ⟨_, .number _, rfl⟩
  · exact .inr (.inr rfl)

theorem mem_handlers_of_find? (h : r.find? key = some handler) : handler ∈ r.handlers := by
  obtain ⟨layer, hlayer, hinLayer⟩ := List.exists_of_findSome?_eq_some h
  rw [mem_handlers_iff]
  rcases Option.or_eq_some_iff.mp hinLayer with hexact | ⟨-, hwildcard⟩
  · exact ⟨layer, hlayer, _, Dictionary.mem_of_get? hexact⟩
  · exact ⟨layer, hlayer, _, Dictionary.mem_of_get? hwildcard⟩

theorem mem_handlers_of_locate? (h : r.locate? key = some located) :
    located.handler ∈ r.handlers := by
  obtain ⟨c, -, hanswer, -⟩ := locate?_eq_some_iff.mp h
  obtain ⟨handler, hfind, rfl⟩ := Option.map_eq_some_iff.mp hanswer
  exact mem_handlers_of_find? hfind

/-- **Why a key fails**: nothing owns it, or a handler fails. -/
theorem error_of_resolve (h : r.resolve key context = .error error) :
    (r.owns key = false ∧ error = .unresolvedKey key) ∨
      ∃ handler ∈ r.handlers, ∃ other, handler other context = .error error := by
  unfold resolve at h
  split at h
  · next hlocate =>
    refine .inl ⟨?_, (Except.error.inj h).symm⟩
    rw [owns, hlocate, Option.isSome_none]
  · next located hlocate =>
    refine .inr ⟨located.handler, mem_handlers_of_locate? hlocate, located.key, ?_⟩
    split at h
    · next failure hfails => rw [hfails, Except.error.inj h]
    · split at h <;> cases h

/-- Contexts that no handler tells apart. -/
theorem resolve_congr_context
    (h : ∀ handler ∈ r.handlers, ∀ other, handler other context = handler other context')
    (key : Key) : r.resolve key context = r.resolve key context' := by
  unfold resolve
  split
  · rfl
  · next located hlocate => rw [h _ (mem_handlers_of_locate? hlocate)]

end Resolver

end Stencil
