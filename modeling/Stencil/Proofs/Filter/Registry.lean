import Stencil.Filter.Standard
import Stencil.Proofs.Key

/-!
# Registries and their history

A registry is made by registering one filter after the other. This file fixes

* the history of a registry, the list of its registrations, and the registry it leads to
  (`Registry.ofHistory`); that of the standard filters has one, too
  (`Registry.standard_eq_ofHistory`);
* what is read off a history: the filter that was last registered under a namespace and a name
  (`lastFilter?`), and the namespace under which a name was first registered (`firstSpace?`);
* that the two tables of a registry hold just this (`Registry.Follows`), since every registration
  keeps it so (`Follows.register`);
* what a written name means after any history (`Registry.remembers_ofHistory`).
-/

namespace Stencil

/-- A filter with the namespace and the name it is registered under. -/
structure Registration where
  space : String
  name : String
  filter : Filter

namespace Registry

variable {r : Registry} {history : List Registration} {entry : Registration}
  {space name written : String}

/-! ## 1. Histories -/

/-- The registry after some more registrations. -/
def after (r : Registry) (history : List Registration) : Registry :=
  history.foldl (fun acc entry => acc.register entry.space entry.name entry.filter) r

/-- The registry that a history leads to. -/
def ofHistory (history : List Registration) : Registry :=
  empty.after history

/-- The filter that was last registered under a namespace and a name. -/
def lastFilter? (history : List Registration) (space name : String) : Option Filter :=
  (history.findRev? fun entry => entry.space = space ∧ entry.name = name).map (·.filter)

/-- The namespace under which a name was first registered. -/
def firstSpace? (history : List Registration) (name : String) : Option String :=
  (history.find? fun entry => entry.name = name).map (·.space)

theorem after_append (r : Registry) (history more : List Registration) :
    r.after (history ++ more) = (r.after history).after more :=
  List.foldl_append

theorem registerAll_eq_after (r : Registry) (space : String) (filters : List (String × Filter)) :
    r.registerAll space filters =
      r.after (filters.map fun entry => ⟨space, entry.1, entry.2⟩) := by
  rw [after, List.foldl_map]
  rfl

/-- **The standard registry has a history**: family after family. -/
theorem standard_eq_ofHistory : standard = ofHistory
    ((Filter.Text.family.map fun entry => ⟨"text", entry.1, entry.2⟩) ++
      (Filter.Number.family.map fun entry => ⟨"number", entry.1, entry.2⟩) ++
      (Filter.Comparison.family.map fun entry => ⟨"cond", entry.1, entry.2⟩) ++
      (Filter.Logic.family.map fun entry => ⟨"logic", entry.1, entry.2⟩)) := by
  rw [ofHistory, after_append, after_append, after_append, standard, registerAll_eq_after,
    registerAll_eq_after, registerAll_eq_after, registerAll_eq_after]

/-- A registration is the last one of its own name, and of no other. -/
theorem lastFilter?_concat (history : List Registration) (entry : Registration)
    (space name : String) : lastFilter? (history ++ [entry]) space name =
      if entry.space = space ∧ entry.name = name then some entry.filter
      else lastFilter? history space name := by
  simp only [lastFilter?, List.findRev?_eq_find?_reverse, List.reverse_append,
    List.reverse_singleton, List.singleton_append, List.find?_cons]
  by_cases hnames : entry.space = space ∧ entry.name = name
  · simp [hnames]
  · simp [hnames]

/-- A registration is the first one of its name if there was none before. -/
theorem firstSpace?_concat (history : List Registration) (entry : Registration) (name : String) :
    firstSpace? (history ++ [entry]) name = (firstSpace? history name).or
      (if entry.name = name then some entry.space else none) := by
  simp only [firstSpace?, List.find?_append, List.find?_singleton, Option.map_or]
  by_cases hname : entry.name = name
  · simp [hname]
  · simp [hname]

theorem isSome_firstSpace? : (firstSpace? history name).isSome ↔
    ∃ entry ∈ history, entry.name = name := by
  simp [firstSpace?]

/-- **The namespace that a bare name means has a filter of that name.** -/
theorem isSome_lastFilter?_of_firstSpace? (h : firstSpace? history name = some space) :
    (lastFilter? history space name).isSome := by
  obtain ⟨entry, hfind, rfl⟩ := Option.map_eq_some_iff.mp h
  have hname : entry.name = name := by simpa using List.find?_some hfind
  have hentry : entry ∈ history := List.mem_of_find?_eq_some hfind
  simp only [lastFilter?, List.findRev?_eq_find?_reverse, Option.isSome_map,
    List.find?_isSome, List.mem_reverse]
  exact ⟨entry, hentry, decide_eq_true ⟨rfl, hname⟩⟩

/-! ## 2. The two tables -/

/-- The tables of a registry hold what its history says: under a namespace and a name the filter
    last registered there, and for a bare name the namespace of its first registration. -/
structure Follows (r : Registry) (history : List Registration) : Prop where
  filters (space name : String) :
    Dictionary.get? r.filters (space, name) = lastFilter? history space name
  bare (name : String) : Dictionary.get? r.bare name = firstSpace? history name

theorem follows_empty : empty.Follows [] where
  filters _ _ := rfl
  bare _ := rfl

/-- **Every registration keeps the tables in step with the history.** -/
theorem Follows.register (h : r.Follows history) (entry : Registration) :
    (r.register entry.space entry.name entry.filter).Follows (history ++ [entry]) where
  filters space name := by
    rw [lastFilter?_concat, Registry.register, Dictionary.get?_insert, h.filters]
    simp only [Prod.mk.injEq]
  bare name := by
    rw [firstSpace?_concat, Registry.register, ← h.bare]
    cases hfirst : Dictionary.get? r.bare entry.name with
    | none =>
      rw [Dictionary.get?_insert]
      by_cases hname : entry.name = name
      · rw [← hname, if_pos rfl, if_pos rfl, hfirst, Option.none_or]
      · rw [if_neg hname, if_neg hname, Option.or_none]
    | some first =>
      by_cases hname : entry.name = name
      · rw [← hname, if_pos rfl, hfirst, Option.some_or]
      · rw [if_neg hname, Option.or_none]

theorem follows_ofHistory (history : List Registration) : (ofHistory history).Follows history := by
  suffices h : ∀ {r : Registry} {before : List Registration}, r.Follows before →
      (r.after history).Follows (before ++ history) from h follows_empty
  induction history with
  | nil =>
    intro r before h
    rwa [List.append_nil]
  | cons entry rest ih =>
    intro r before h
    have hrest := ih (h.register entry)
    rwa [List.append_assoc] at hrest

/-! ## 3. Written names -/

/-- A name behind a namespace and a dot is looked up there. The first dot counts: the name may have
    dots of its own. -/
theorem qualify?_append_dot (r : Registry) (hspace : '.' ∉ space.toList) (name : String) :
    r.qualify? (space ++ "." ++ name) = some (space, name) := by
  have hchars : (space ++ "." ++ name).toList = space.toList ++ '.' :: name.toList := by simp
  rw [qualify?, hchars, Text.splitFirst_append hspace]
  simp

theorem qualify?_of_bare (r : Registry) (hname : '.' ∉ name.toList) :
    r.qualify? name = (Dictionary.get? r.bare name).map fun space => (space, name) := by
  rw [qualify?, Text.splitFirst_eq_none_iff.mpr hname]

/-- A call fails for want of its filter where there is none, or where the filter says so itself. -/
theorem apply_eq_unknownFilter_iff {call : FilterCall} {input : Value} {scope : Scope} :
    r.apply call input scope = .error (.unknownFilter call.name) ↔
      r.find? call.name = none ∨ ∃ filter, r.find? call.name = some filter ∧
        filter input call.args scope = .error (.unknownFilter call.name) := by
  rw [apply]
  cases r.find? call.name with
  | none => simp
  | some filter => simp

/-- **What a registry remembers of its history.** -/
structure Remembers (r : Registry) (history : List Registration) : Prop where
  /-- A name with a namespace means the filter last registered there. -/
  qualified (space name : String) (hspace : '.' ∉ space.toList) :
    r.find? (space ++ "." ++ name) = lastFilter? history space name
  /-- A bare name means the filter last registered under it in the namespace that registered the
      name first. -/
  bare (name : String) (hname : '.' ∉ name.toList) :
    r.find? name = (firstSpace? history name).bind fun space => lastFilter? history space name
  /-- A bare name that was ever registered means some filter. -/
  alive (name : String) (hname : '.' ∉ name.toList) :
    (r.find? name).isSome ↔ ∃ entry ∈ history, entry.name = name
  contains (written : String) : r.contains written = true ↔ (r.find? written).isSome
  apply (call : FilterCall) (input : Value) (scope : Scope) :
    r.apply call input scope = .error (.unknownFilter call.name) ↔
      r.find? call.name = none ∨ ∃ filter, r.find? call.name = some filter ∧
        filter input call.args scope = .error (.unknownFilter call.name)

theorem Follows.find?_qualified (h : r.Follows history) (hspace : '.' ∉ space.toList)
    (name : String) : r.find? (space ++ "." ++ name) = lastFilter? history space name := by
  rw [find?, qualify?_append_dot r hspace, Option.bind_some, h.filters]

theorem Follows.find?_bare (h : r.Follows history) (hname : '.' ∉ name.toList) :
    r.find? name =
      (firstSpace? history name).bind fun space => lastFilter? history space name := by
  rw [find?, qualify?_of_bare r hname, h.bare, Option.bind_map]
  exact congrArg _ (funext fun space => h.filters space name)

/-- The tables never part: a bare name with a namespace has a filter there. -/
theorem Follows.isSome_find?_bare (h : r.Follows history) (hname : '.' ∉ name.toList) :
    (r.find? name).isSome ↔ ∃ entry ∈ history, entry.name = name := by
  rw [h.find?_bare hname, ← isSome_firstSpace?]
  cases hfirst : firstSpace? history name with
  | none => simp
  | some space => simp [isSome_lastFilter?_of_firstSpace? hfirst]

/-- **Filters are looked up by the history of registrations**, whatever the names and in whatever
    order they were registered. -/
theorem remembers_ofHistory (history : List Registration) :
    (ofHistory history).Remembers history where
  qualified _ name hspace := (follows_ofHistory history).find?_qualified hspace name
  bare _ hname := (follows_ofHistory history).find?_bare hname
  alive _ hname := (follows_ofHistory history).isSome_find?_bare hname
  contains _ := Iff.rfl
  apply _ _ _ := apply_eq_unknownFilter_iff

/-- A name that two namespaces register, the first of them twice, and a name with dots. -/
theorem remembers_ofHistory_tags :
    let tag : String → Filter := fun text _ _ _ => .ok (.text text)
    let history : List Registration :=
      [⟨"a", "tag", tag "first"⟩, ⟨"b", "tag", tag "second"⟩, ⟨"a", "tag", tag "third"⟩,
        ⟨"b", "x.y", tag "fourth"⟩]
    '.' ∉ "tag".toList ∧ '.' ∉ "b".toList ∧
      (ofHistory history).find? "tag" = some (tag "third") ∧
      (ofHistory history).find? "b.tag" = some (tag "second") ∧
      (ofHistory history).find? "b.x.y" = some (tag "fourth") ∧
      (ofHistory history).find? "c.tag" = none := by
  intro tag history
  have hremembers := remembers_ofHistory history
  refine ⟨by decide, by decide, ?_, ?_, ?_, ?_⟩
  · exact hremembers.bare "tag" (by decide)
  · exact hremembers.qualified "b" "tag" (by decide)
  · exact hremembers.qualified "b" "x.y" (by decide)
  · exact hremembers.qualified "c" "tag" (by decide)

end Registry

end Stencil
