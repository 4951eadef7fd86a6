import Stencil.Proofs.Resolver.Reference

/-!
# Dotted names by two routes

A dotted name leads into a value by two routes. A handler for its first part gives the value, and
the rest of the name is walked from outside; or the handler of a whole namespace is given the name
undivided, and walks it through the bindings of the context. This file fixes

* the resolvers with a single handler, in whichever of their layers (`Resolver.HasOnly`), and what
  they resolve if that handler is for a name or for a namespace;
* that both routes come to the same (`Resolver.resolve_dotted`): what stands at the rest of the
  name, or null.
-/

namespace Stencil

namespace Resolver

/-! ## 1. A single handler -/

/-- The resolver has one handler in all its layers together, and has it for this key. -/
def HasOnly (r : Resolver) (key : Key) (handler : Handler) : Prop :=
  r.layers.flatten = [(key, handler)]

variable {r : Resolver} {key other : Key} {handler : Handler} {space name : String}

theorem has_iff_mem_flatten : r.Has other ↔ other ∈ r.layers.flatten.map Prod.fst := by
  rw [List.map_flatten, List.mem_flatten]
  constructor
  · intro hhas
    obtain ⟨layer, hlayer, hkey⟩ := hhas
    exact ⟨_, List.mem_map_of_mem hlayer, hkey⟩
  · intro hmem
    obtain ⟨keys, hkeys, hkey⟩ := hmem
    obtain ⟨layer, hlayer, rfl⟩ := List.mem_map.mp hkeys
    exact ⟨layer, hlayer, hkey⟩

namespace HasOnly

theorem has_iff (h : r.HasOnly key handler) : r.Has other ↔ other = key := by
  rw [has_iff_mem_flatten, h, List.map_singleton, List.mem_singleton]

/-- The layer of the handler stands in front of all others of a kind that leaves out the empty
    layers. -/
theorem front (h : r.HasOnly key handler) {kind : Layer → Prop} (hkind : kind [(key, handler)])
    (hempty : ¬kind []) : r.Front kind [(key, handler)] := by
  obtain ⟨before, behind, hlayers, hbefore, -⟩ := List.flatten_eq_singleton_iff.mp h
  refine ⟨before, behind, hlayers, hkind, fun layer hlayer => ?_⟩
  rw [hbefore layer hlayer]
  exact hempty

/-- **A single handler for a name** answers what stands behind the name and a dot. -/
theorem resolve_behind_dot (h : r.HasOnly ⟨space, name⟩ handler) (hname : name ≠ Key.wildcardName)
    (path : String) (context : Context) :
    r.resolve ⟨space, name ++ "." ++ path⟩ context =
      (handler ⟨space, name⟩ context).map fun v => (v.get? path).getD .null := by
  have hnone : ¬r.Has (.wildcard space) := by
    rw [h.has_iff]
    exact fun heq => hname (congrArg Key.name heq).symm
  have hfront : r.Front (·.Has ⟨space, name⟩) [(⟨space, name⟩, handler)] :=
    h.front (List.mem_singleton.mpr rfl) List.not_mem_nil
  refine (Answers.stem hnone rfl (fun other _ hother => ?_) hfront ?_).resolve_eq
  · obtain rfl : other = name := congrArg Key.name (h.has_iff.mp hother)
    exact Nat.le_refl _
  · rw [Dictionary.get?_cons, if_pos rfl]

/-- **A single handler for a namespace** answers every key of it. -/
theorem resolve_in_space (h : r.HasOnly (.wildcard space) handler) (name : String)
    (context : Context) : r.resolve ⟨space, name⟩ context = handler ⟨space, name⟩ context := by
  have hserves : Layer.Serves [(.wildcard space, handler)] ⟨space, name⟩ handler := by
    by_cases hkey : (⟨space, name⟩ : Key) = .wildcard space
    · exact .exact (by rw [hkey, Dictionary.get?_cons, if_pos rfl])
    · refine .wildcard (fun hhas => hkey (List.mem_singleton.mp hhas)) ?_
      rw [Dictionary.get?_cons, if_pos rfl]
  refine (Answers.wildcard (h.has_iff.mpr rfl) (h.front hserves.has ?_) hserves).resolve_eq
  exact not_or.mpr ⟨List.not_mem_nil, List.not_mem_nil⟩

end HasOnly

end Resolver

/-! ## 2. Two routes -/

/-- The context is walked along a name with a dot: first to the binding, then to one of its fields,
    and then along the rest. -/
theorem Handler.ofContext_of_field {space name path : String} {context : Context}
    {fields : List (String × Value)} {v : Value} (hname : name ≠ "") (hdot : '.' ∉ name.toList)
    (hpath : path ≠ "") (hbound : context.get? space = some (.mapping fields))
    (hfield : Dictionary.get? fields name = some v) :
    ofContext ⟨space, name ++ "." ++ path⟩ context = .ok ((v.get? path).getD .null) := by
  rw [ofContext, hbound, Option.bind_some, Value.get?_append_dot hname hpath,
    Value.get?_mapping hname hdot, hfield, Option.bind_some]

/-- **Dotted names.** A path is walked part by part. Behind the name of a constant it leads to what
    stands there in the value, or to null; and the same is resolved when the value is a field of a
    mapping in the context and the name is walked from there. -/
theorem Resolver.resolve_dotted (v : Value) :
    (∀ first second : String, first ≠ "" → second ≠ "" →
      v.get? (first ++ "." ++ second) = (v.get? first).bind fun inner => inner.get? second) ∧
    ∀ space name path : String, name ≠ "" → '.' ∉ name.toList → name ≠ Key.wildcardName →
      path ≠ "" → ∀ (r : Resolver) (context : Context), r.HasOnly ⟨space, name⟩ (.const v) →
        r.resolve ⟨space, name ++ "." ++ path⟩ context = .ok ((v.get? path).getD .null) ∧
        ∀ (r' : Resolver) (context' : Context) (fields : List (String × Value)),
          r'.HasOnly (.wildcard space) .ofContext → context'.get? space = some (.mapping fields) →
          Dictionary.get? fields name = some v →
          r'.resolve ⟨space, name ++ "." ++ path⟩ context' =
            r.resolve ⟨space, name ++ "." ++ path⟩ context := by
  refine ⟨fun first second => Value.get?_append_dot, ?_⟩
  intro space name path hname hdot hwildcard hpath r context hconst
  have houtside : r.resolve ⟨space, name ++ "." ++ path⟩ context =
      .ok ((v.get? path).getD .null) := hconst.resolve_behind_dot hwildcard path context
  refine ⟨houtside, fun r' context' fields hcontext hbound hfield => ?_⟩
  rw [houtside, hcontext.resolve_in_space]
  exact Handler.ofContext_of_field hname hdot hpath hbound hfield

/-- The name of the second of two people, with a constant behind an empty layer, and in a context
    in which another frame lies over the binding. -/
theorem Resolver.resolve_dotted_second_name :
    let people : Value := .sequence
      [.mapping [("name", .text "Fred")], .mapping [("name", .text "Barney")]]
    let key : Key := ⟨"ns", "people.1.name"⟩
    let r : Resolver := .chain [] (.last [(⟨"ns", "people"⟩, .const people)])
    let r' : Resolver := .last [(.wildcard "ns", .ofContext)]
    let context := (Context.ofBindings [("ns", .mapping [("people", people)])]).bind "x" .null
    r.HasOnly ⟨"ns", "people"⟩ (.const people) ∧ r'.HasOnly (.wildcard "ns") .ofContext ∧
      r.resolve key .empty = .ok (.text "Barney") ∧ r'.resolve key context = .ok (.text "Barney") ∧
      (people.get? "1").bind (·.get? "name") = some (.text "Barney") := by
  intro people key r r' context
  have hr : r.HasOnly ⟨"ns", "people"⟩ (.const people) := rfl
  have hr' : r'.HasOnly (.wildcard "ns") .ofContext := rfl
  obtain ⟨hwalk, hroutes⟩ := resolve_dotted people
  obtain ⟨houtside, hinside⟩ := hroutes "ns" "people" "1.name" (by decide) (by decide) (by decide)
    (by decide) r .empty hr
  have hsame := hinside r' context [("people", people)] hr' rfl rfl
  have hget : people.get? "1.name" = some (.text "Barney") := rfl
  refine ⟨hr, hr', ?_, ?_, ?_⟩
  · rw [hget] at houtside
    exact houtside
  · rw [houtside, hget] at hsame
    exact hsame
  · rw [← hwalk "1" "name" (by decide) (by decide)]
    exact hget

end Stencil
