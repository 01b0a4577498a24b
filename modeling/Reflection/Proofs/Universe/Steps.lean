import Reflection.Proofs.Universe.Lines

/-!
# Proofs/Universe/Steps — declaring and defining, step after step

    empty  ──Step──▸  u  ──Step──▸  v        u.Later v : v comes some steps after u

A reachable universe is one that steps lead to from the empty one (`reachable_iff_later`), and what
a step adds it adds for good (`Later.extends`).  Wherever a declared type is not defined yet, a step
can give it any base that is allowed and any interfaces (`exists_step_outline`): nothing that it
does not have yet can be counted out.
-/

namespace Reflection.Universe

open Relation

variable {β : Type} {u v w : Universe β} {a t : TypeRef}

/-! ## Steps -/

/-- One step in the life of a universe. -/
inductive Step (u : Universe β) : Universe β → Prop
  | declare (k : DeclaredKind) (n : String) : Step u (u.declare k n)
  | define {b : Blueprint β} {c : Blueprint.Compiled β} (hd : u.Declares b.target)
      (hn : u.isDefined b.self = false) (hs : u.Scopes b) (hh : b.halts u = true)
      (hc : b.compile u = .ok c) : Step u (u.define b.target c.definition)

/-- Whether a universe comes some steps after another. -/
def Later (u v : Universe β) : Prop := ReflTransGen Step u v

theorem Step.reachable (hu : u.Reachable) (h : u.Step v) : v.Reachable := by
  cases h with
  | declare k n => exact .declare k n hu
  | define hd hn hs hh hc => exact .define hu hd hn hs hh hc

theorem Step.extends (h : u.Step v) : u.Extends v := by
  cases h with
  | declare k n => exact u.extends_declare k n
  | define hd hn hs hh hc => exact extends_define _ hn

theorem Later.reachable (hu : u.Reachable) (h : u.Later v) : v.Reachable := by
  induction h with
  | refl => exact hu
  | tail _ h ih => exact h.reachable ih

/-- **What is declared and defined stays so.** -/
theorem Later.extends (h : u.Later v) : u.Extends v := by
  induction h with
  | refl => exact .refl u
  | tail _ h ih => exact ih.trans h.extends

/-- The reachable universes are those that steps lead to. -/
theorem reachable_iff_later : u.Reachable ↔ empty.Later u := by
  refine ⟨fun hu => ?_, Later.reachable .empty⟩
  induction hu with
  | empty => exact .refl
  | declare k n _ ih => exact ih.tail (.declare k n)
  | define _ hd hn hs hh hc ih => exact ih.tail (.define hd hn hs hh hc)

/-- Defining by a blueprint is a step, if the blueprint compiles. -/
theorem later_defineBy {b : Blueprint β} (hd : u.Declares b.target)
    (hn : u.isDefined b.self = false) (hs : u.Scopes b) (hh : b.halts u = true) :
    u.Later (u.defineBy b) := by
  unfold defineBy
  cases hc : b.compile u with
  | ok c => exact .single (.define hd hn hs hh hc)
  | error e => exact .refl

/-! ## A step that can be taken -/

/-- The blueprint of a type that asks for a base and for interfaces only. -/
def outline (d : Declaration) (extends? : Option TypeRef) (interfaces : List TypeRef) :
    Blueprint β :=
  { Blueprint.start d with extends?, interfaces }

theorem compile_outline {d : Declaration} {extends? base? : Option TypeRef} {is : List TypeRef}
    (hb : (outline d extends? is).resolveBase u = .ok base?)
    (his : ∀ i ∈ is, i.isInterface = true) :
    ∃ c, (outline d extends? is).halts u = true ∧ (outline d extends? is).compile u = .ok c ∧
      c.definition.bases = Blueprint.lineOf u base? ∧ c.definition.interfaces = is ∧
      c.definition.flags = Blueprint.kindFlags d.kind := by
  have hshape : (outline (β := β) d extends? is).checkShape u base? = .ok () := by
    have hfind : is.find? (fun i => !i.isInterface) = none := by simpa using his
    simp [Blueprint.checkShape, outline, Blueprint.start, hfind]
  obtain ⟨c, hc⟩ : ∃ c, (outline (β := β) d extends? is).compile u = .ok c := by
    simp only [Blueprint.compile, hb, hshape, bind, Except.bind]
    exact ⟨_, rfl⟩
  refine ⟨c, ?_, hc, ?_⟩
  · simp only [Blueprint.halts, hb, hshape]
    rfl
  · obtain ⟨base', hp⟩ := Blueprint.exists_passes hc
    obtain rfl := Except.ok.inj (hb.symm.trans hp.resolve)
    exact ⟨hp.bases, hp.interfaces, hp.flags⟩

/-- **A declared type may still get any base and any interfaces**, until it is defined. -/
theorem exists_step_outline {d : Declaration} {base? : Option TypeRef} (extends? : Option TypeRef)
    (is : List TypeRef) (hd : u.Declares d) (hn : u.isDefined (.declared d) = false)
    (hk : ∀ t ∈ extends?, u.Knows t) (hb : (outline d extends? is).resolveBase u = .ok base?)
    (his : ∀ i ∈ is, i.isInterface = true ∧ u.Knows i) :
    ∃ x, u.Step (u.define d x) ∧ x.bases = Blueprint.lineOf u base? ∧ x.interfaces = is ∧
      x.flags = Blueprint.kindFlags d.kind := by
  obtain ⟨c, hh, hc, hx⟩ := compile_outline hb fun i hi => (his i hi).1
  have hs : u.Scopes (outline d extends? is) := by
    intro t ht
    simp only [outline, Blueprint.mentioned, Blueprint.start, List.map_nil, List.flatMap_nil,
      List.append_nil, List.mem_append, Option.mem_toList] at ht
    exact ht.elim (hk t) fun ht => (his t ht).2
  exact ⟨c.definition, .define (b := outline d extends? is) hd hn hs hh hc, hx⟩

end Reflection.Universe
