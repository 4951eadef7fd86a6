import Stencil.Proofs.Resolver

/-!
# The answer to a key, case by case

A resolver looks a key up name by name, layer by layer, and in a layer the key itself before the
wildcard. This file fixes what that comes to, said without the search:

* which layer is the front-most one of a kind (`Resolver.Front`), and which handler it has for a
  key, its own or that of the wildcard (`Layer.Serves`);
* the four ways in which a key is answered (`Resolver.Answers`): a namespace with a wildcard answers
  every name in it, whole; without one, the longest name that has a handler answers, whole or with
  a path left to walk; else the key is unresolved;
* `Resolver.resolve_eq_iff_answers`: this is what is resolved, and when a key is owned.
-/

namespace Stencil

/-! ## 1. Layers -/

namespace Layer

/-- The layer has a handler for just this key. -/
def Has (layer : Layer) (key : Key) : Prop :=
  key ∈ layer.map Prod.fst

/-- The handler of a layer for a key: its own, or else that of the wildcard of its namespace. -/
inductive Serves (layer : Layer) (key : Key) : Handler → Prop where
  | exact {handler : Handler} (h : Dictionary.get? layer key = some handler) :
      Serves layer key handler
  | wildcard {handler : Handler} (hnot : ¬layer.Has key)
      (h : Dictionary.get? layer (.wildcard key.space) = some handler) : Serves layer key handler

variable {layer : Layer} {key : Key} {handler : Handler}

theorem inLayer?_eq_some_iff :
    Resolver.inLayer? key layer = some handler ↔ layer.Serves key handler := by
  rw [Resolver.inLayer?, Option.or_eq_some_iff]
  constructor
  · rintro (hexact | ⟨hnone, hwildcard⟩)
    · exact .exact hexact
    · exact .wildcard (Dictionary.get?_eq_none_iff.mp hnone) hwildcard
  · rintro (hexact | ⟨hnot, hwildcard⟩)
    · exact .inl hexact
    · exact .inr ⟨Dictionary.get?_eq_none_iff.mpr hnot, hwildcard⟩

theorem Serves.has (h : layer.Serves key handler) :
    layer.Has key ∨ layer.Has (.wildcard key.space) := by
  cases h with
  | exact h => exact .inl (Dictionary.get?_isSome_iff.mp (h ▸ rfl))
  | wildcard _ h => exact .inr (Dictionary.get?_isSome_iff.mp (h ▸ rfl))

theorem inLayer?_eq_none_iff :
    Resolver.inLayer? key layer = none ↔ ¬(layer.Has key ∨ layer.Has (.wildcard key.space)) := by
  rw [Resolver.inLayer?, Option.or_eq_none_iff, Dictionary.get?_eq_none_iff,
    Dictionary.get?_eq_none_iff, not_or]
  exact Iff.rfl

end Layer

namespace Resolver

variable {r : Resolver} {key : Key} {name path : String} {layer : Layer} {handler : Handler}
  {context : Context} {located : Located}

/-- Some layer has a handler for just this key. -/
def Has (r : Resolver) (key : Key) : Prop :=
  ∃ layer ∈ r.layers, layer.Has key

/-- The front-most layer of a kind: it is of that kind, and none in front of it is. -/
def Front (r : Resolver) (kind : Layer → Prop) (layer : Layer) : Prop :=
  ∃ before behind, r.layers = before ++ layer :: behind ∧ kind layer ∧
    ∀ other ∈ before, ¬kind other

theorem handles_iff : r.Handles key ↔ r.Has key ∨ r.Has (.wildcard key.space) := by
  simp only [Handles, Has, Layer.Has, and_or_left, exists_or]

theorem Front.mem {kind : Layer → Prop} (h : r.Front kind layer) : layer ∈ r.layers := by
  obtain ⟨before, behind, hsplit, -⟩ := h
  rw [hsplit]
  exact List.mem_append_right before List.mem_cons_self

theorem Front.congr {kind kind' : Layer → Prop} (h : r.Front kind layer)
    (hkind : ∀ layer ∈ r.layers, (kind layer ↔ kind' layer)) : r.Front kind' layer := by
  have hlayer := (hkind layer h.mem).mp
  obtain ⟨before, behind, hsplit, hof, hbefore⟩ := h
  refine ⟨before, behind, hsplit, hlayer hof, fun other hother hnot => ?_⟩
  refine hbefore other hother ((hkind other ?_).mpr hnot)
  rw [hsplit]
  exact List.mem_append_left _ hother

/-! ## 2. One key, taken as it is -/

/-- **The handler of a key** is in the front-most layer that has one for it or for the wildcard. -/
theorem find?_eq_some_iff : r.find? key = some handler ↔
    ∃ layer, r.Front (fun l => l.Has key ∨ l.Has (.wildcard key.space)) layer ∧
      layer.Serves key handler := by
  rw [find?, List.findSome?_eq_some_iff]
  constructor
  · rintro ⟨before, layer, behind, hsplit, hlayer, hbefore⟩
    have hserves := Layer.inLayer?_eq_some_iff.mp hlayer
    refine ⟨layer, ⟨before, behind, hsplit, hserves.has, fun other hother => ?_⟩, hserves⟩
    exact Layer.inLayer?_eq_none_iff.mp (hbefore other hother)
  · rintro ⟨layer, ⟨before, behind, hsplit, -, hbefore⟩, hserves⟩
    refine ⟨before, layer, behind, hsplit, Layer.inLayer?_eq_some_iff.mpr hserves, ?_⟩
    exact fun other hother => Layer.inLayer?_eq_none_iff.mpr (hbefore other hother)

/-- Without a wildcard, it is in the front-most layer that has one for the key. -/
theorem find?_eq_some_iff_of_not_has {space : String} (hnone : ¬r.Has (.wildcard space)) :
    r.find? ⟨space, name⟩ = some handler ↔
      ∃ layer, r.Front (·.Has ⟨space, name⟩) layer ∧
        Dictionary.get? layer ⟨space, name⟩ = some handler := by
  have hkind : ∀ layer ∈ r.layers,
      (layer.Has ⟨space, name⟩ ↔ layer.Has ⟨space, name⟩ ∨ layer.Has (.wildcard space)) :=
    fun layer hlayer => (or_iff_left fun hwildcard => hnone ⟨layer, hlayer, hwildcard⟩).symm
  rw [find?_eq_some_iff]
  constructor
  · rintro ⟨layer, hfront, hserves⟩
    refine ⟨layer, hfront.congr fun other hother => (hkind other hother).symm, ?_⟩
    have hhas := (hkind layer hfront.mem).mpr hserves.has
    cases hserves with
    | exact h => exact h
    | wildcard hnot _ => exact absurd hhas hnot
  · rintro ⟨layer, hfront, hhandler⟩
    exact ⟨layer, hfront.congr hkind, .exact hhandler⟩

/-! ## 3. The four ways to answer a key -/

/-- **What a key is answered**, in a context. -/
inductive Answers (r : Resolver) (key : Key) (context : Context) : Outcome Value → Prop where
  /-- The namespace has a wildcard: the key is answered whole, by the front-most layer that has it
      or the wildcard. -/
  | wildcard {layer : Layer} {handler : Handler} (hwildcard : r.Has (.wildcard key.space))
      (hfront : r.Front (fun l => l.Has key ∨ l.Has (.wildcard key.space)) layer)
      (hserves : layer.Serves key handler) : Answers r key context (handler key context)
  /-- There is no wildcard, and a handler for the whole name. -/
  | whole {layer : Layer} {handler : Handler} (hnone : ¬r.Has (.wildcard key.space))
      (hfront : r.Front (·.Has key) layer) (hhandler : Dictionary.get? layer key = some handler) :
      Answers r key context (handler key context)
  /-- There is no wildcard, and the longest name with a handler stands before a dot: the path
      behind the dot is walked, and leads to null if it leads nowhere. -/
  | stem {name path : String} {layer : Layer} {handler : Handler}
      (hnone : ¬r.Has (.wildcard key.space)) (hname : key.name = name ++ "." ++ path)
      (hlongest : ∀ other, key.Stem other → r.Has ⟨key.space, other⟩ → other.length ≤ name.length)
      (hfront : r.Front (·.Has ⟨key.space, name⟩) layer)
      (hhandler : Dictionary.get? layer ⟨key.space, name⟩ = some handler) :
      Answers r key context
        ((handler ⟨key.space, name⟩ context).map fun v => (v.get? path).getD .null)
  /-- There is no wildcard, and no name of the key has a handler. -/
  | unresolved (hnone : ¬r.Has (.wildcard key.space))
      (hno : ∀ name, key.Stem name → ¬r.Has ⟨key.space, name⟩) :
      Answers r key context (.error (.unresolvedKey key))

theorem owns_iff_has : r.owns key = true ↔
    r.Has (.wildcard key.space) ∨ ∃ name, key.Stem name ∧ r.Has ⟨key.space, name⟩ := by
  simp only [owns, locate?_eq, List.findSome?_isSome_iff, answer?_isSome_iff, handles_iff]
  constructor
  · rintro ⟨⟨⟨space, name⟩, rest⟩, hc, hhas⟩
    obtain ⟨rfl, hstem⟩ := Key.stem_of_mem_candidates hc
    exact hhas.symm.imp_right fun hname => ⟨name, hstem, hname⟩
  · rintro (hwildcard | ⟨name, hstem, hname⟩)
    · exact ⟨_, List.mem_cons_self, .inr hwildcard⟩
    · obtain ⟨c, hc, hkey⟩ := hstem.exists_candidate
      exact ⟨c, hc, .inl (hkey ▸ hname)⟩

theorem resolve_of_whole (h : r.find? key = some handler) :
    r.resolve key context = handler key context := by
  simp only [resolve, locate?, h]
  cases handler key context <;> rfl

/-- A matched name before a dot answers, and the path behind the dot is walked. -/
theorem resolve_of_stem (hmatches : r.Matches key name) (hname : key.name = name ++ "." ++ path)
    (h : r.find? ⟨key.space, name⟩ = some handler) :
    r.resolve key context =
      (handler ⟨key.space, name⟩ context).map fun v => (v.get? path).getD .null := by
  have hlocate : r.locate? key = some ⟨handler, ⟨key.space, name⟩, some path⟩ := by
    refine locate?_eq_some_iff.mpr ⟨_, Key.mem_candidates_of_name hname, ?_, fun d hd hreach => ?_⟩
    · rw [answer?, h, Option.map_some]
    · refine answer?_eq_none hd fun other hother => ?_
      exact Nat.lt_of_le_of_lt (hmatches.length_le hother) hreach
  simp only [resolve, hlocate]
  cases handler ⟨key.space, name⟩ context <;> rfl

/-- What a key is answered is what is resolved. -/
theorem Answers.resolve_eq {o : Outcome Value} (h : r.Answers key context o) :
    r.resolve key context = o := by
  cases h with
  | wildcard _ hfront hserves => exact resolve_of_whole (find?_eq_some_iff.mpr ⟨_, hfront, hserves⟩)
  | whole hnone hfront hhandler =>
    exact resolve_of_whole ((find?_eq_some_iff_of_not_has hnone).mpr ⟨_, hfront, hhandler⟩)
  | stem hnone hname hlongest hfront hhandler =>
    have hfind := (find?_eq_some_iff_of_not_has hnone).mpr ⟨_, hfront, hhandler⟩
    refine resolve_of_stem ⟨.inr ⟨_, hname⟩, ?_, fun other hstem hother => ?_⟩ hname hfind
    · exact find?_isSome_iff.mp (Option.isSome_of_eq_some hfind)
    · exact hlongest other hstem ((handles_iff.mp hother).resolve_right hnone)
  | unresolved hnone hno =>
    have hnot : ¬r.owns key = true := by
      rw [owns_iff_has]
      exact not_or.mpr ⟨hnone, fun ⟨name, hstem, hname⟩ => hno name hstem hname⟩
    simp only [resolve, locate?_eq_none hnot]

/-- Every key is answered in one of the four ways. -/
theorem exists_answers (r : Resolver) (key : Key) (context : Context) :
    ∃ o, r.Answers key context o := by
  by_cases hwildcard : r.Has (.wildcard key.space)
  · obtain ⟨handler, hfind⟩ :=
      Option.isSome_iff_exists.mp (find?_isSome_iff.mpr (handles_iff.mpr (.inr hwildcard)))
    obtain ⟨layer, hfront, hserves⟩ := find?_eq_some_iff.mp hfind
    exact ⟨_, .wildcard hwildcard hfront hserves⟩
  · cases hlocate : r.locate? key with
    | none =>
      refine ⟨_, .unresolved hwildcard fun name hstem hname => ?_⟩
      have howns : r.owns key = true := owns_iff_has.mpr (.inr ⟨name, hstem, hname⟩)
      rw [owns, hlocate] at howns
      cases howns
    | some located =>
      have hmatches := matches_of_locate? hlocate
      obtain ⟨c, hc, hanswer, -⟩ := locate?_eq_some_iff.mp hlocate
      obtain ⟨handler, hfind, rfl⟩ := Option.map_eq_some_iff.mp hanswer
      rcases List.mem_cons.mp hc with rfl | hsplit
      · obtain ⟨layer, hfront, hhandler⟩ := (find?_eq_some_iff_of_not_has hwildcard).mp hfind
        exact ⟨_, .whole hwildcard hfront hhandler⟩
      · obtain ⟨parts, hparts, rfl⟩ := List.mem_map.mp hsplit
        obtain ⟨layer, hfront, hhandler⟩ := (find?_eq_some_iff_of_not_has hwildcard).mp hfind
        refine ⟨_, .stem hwildcard (Key.mem_splits_name.mp (List.mem_reverse.mp hparts)) ?_ hfront
          hhandler⟩
        exact fun other hstem hother => hmatches.longest other hstem (handles_iff.mpr (.inl hother))

/-- **The answer to a key is that of its reference**: what is resolved is what the key is answered,
    in the one of the four ways that applies, and a key is owned if a handler answers it. -/
theorem resolve_eq_iff_answers (r : Resolver) (key : Key) (context : Context) :
    (∀ o, r.resolve key context = o ↔ r.Answers key context o) ∧
    (r.owns key = true ↔
      r.Has (.wildcard key.space) ∨ ∃ name, key.Stem name ∧ r.Has ⟨key.space, name⟩) := by
  refine ⟨fun o => ⟨?_, Answers.resolve_eq⟩, owns_iff_has⟩
  rintro rfl
  obtain ⟨o, ho⟩ := exists_answers r key context
  exact ho.resolve_eq ▸ ho

end Resolver

end Stencil
