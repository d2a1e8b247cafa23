import ExprLang.Proofs.Ty.Structure

namespace ExprLang.Ty

/-- What stands at a place of a type: a constructor with the number of its parts, and the name if it
is a generic. -/
inductive Node where
  | bool
  | int
  | list
  | tuple (arity : Nat)
  | fn (arity : Nat)
  | generic (name : String)

def node : Ty → Node
  | bool => .bool
  | int => .int
  | list _ => .list
  | tuple ts => .tuple ts.length
  | fn _ params _ _ => .fn params.length
  | generic a => .generic a

/-- The types right below the root, in order. The result of a function comes before its
parameters. -/
def parts : Ty → List Ty
  | bool | int | generic _ => []
  | list t => [t]
  | tuple ts => ts
  | fn ret params _ _ => ret :: params

/-- The type that a path from the root leads to, if any: each step chooses a part by its index. -/
def at? (t : Ty) : List Nat → Option Ty
  | [] => some t
  | i :: path => t.parts[i]?.bind fun part => part.at? path

theorem parts_induction {motive : Ty → Prop}
    (step : ∀ t, (∀ part ∈ t.parts, motive part) → motive t) (t : Ty) : motive t := by
  induction t using Ty.induction with
  | bool => exact step _ (List.forall_mem_nil _)
  | int => exact step _ (List.forall_mem_nil _)
  | list t ih => exact step _ (List.forall_mem_singleton.2 ih)
  | tuple ts ih => exact step _ ih
  | fn ret params names generics ihRet ihParams =>
    exact step _ (List.forall_mem_cons.2 ⟨ihRet, ihParams⟩)
  | generic a => exact step _ (List.forall_mem_nil _)

theorem equivAll_length {ss ts : List Ty} (h : equivAll ss ts = true) :
    ss.length = ts.length := by
  induction ss generalizing ts with
  | nil =>
    cases ts with
    | nil => rfl
    | cons t ts => cases h
  | cons s ss ih =>
    cases ts with
    | nil => cases h
    | cons t ts =>
      rw [equivAll, Bool.and_eq_true] at h
      rw [List.length_cons, List.length_cons, ih h.2]

theorem equivAll_iff_getElem? {ss ts : List Ty} :
    equivAll ss ts = true ↔ ∀ i : Nat, Option.Rel (fun s t => s.equiv t = true) ss[i]? ts[i]? := by
  induction ss generalizing ts with
  | nil =>
    cases ts with
    | nil => exact iff_of_true rfl fun i => .none
    | cons t ts => exact iff_of_false Bool.false_ne_true fun h => nomatch h 0
  | cons s ss ih =>
    cases ts with
    | nil => exact iff_of_false Bool.false_ne_true fun h => nomatch h 0
    | cons t ts =>
      rw [equivAll, Bool.and_eq_true, ih]
      constructor
      · rintro ⟨hhead, htail⟩ i
        cases i with
        | zero => exact .some hhead
        | succ i => exact htail i
      · intro h
        obtain ⟨hhead⟩ := h 0
        exact ⟨hhead, fun i => h (i + 1)⟩

theorem equiv_iff_node_parts (s t : Ty) :
    s.equiv t = true ↔ s.node = t.node ∧ equivAll s.parts t.parts = true := by
  cases s with
  | bool => cases t <;> simp [equiv, node, parts, equivAll]
  | int => cases t <;> simp [equiv, node, parts, equivAll]
  | list s => cases t <;> simp [equiv, node, parts, equivAll]
  | tuple ss =>
    cases t with
    | tuple ts =>
      rw [equiv, node, node, Node.tuple.injEq]
      exact (and_iff_right_of_imp equivAll_length).symm
    | _ => simp [equiv, node]
  | fn ret params names generics =>
    cases t with
    | fn ret' params' names' generics' =>
      rw [equiv, node, node, Node.fn.injEq, parts, parts, equivAll, Bool.and_eq_true]
      exact (and_iff_right_of_imp fun h => equivAll_length h.2).symm
    | _ => simp [equiv, node]
  | generic a => cases t <;> simp [equiv, node, parts, equivAll]

theorem node_at?_eq_of_equiv {s t : Ty} (h : s.equiv t = true) (path : List Nat) :
    (s.at? path).map node = (t.at? path).map node := by
  induction path generalizing s t with
  | nil => exact congrArg some ((equiv_iff_node_parts s t).1 h).1
  | cons i path ih =>
    have hparts := equivAll_iff_getElem?.1 ((equiv_iff_node_parts s t).1 h).2 i
    rw [at?, at?]
    revert hparts
    cases s.parts[i]? with
    | none =>
      cases t.parts[i]? with
      | none => exact fun _ => rfl
      | some part' => exact fun hparts => nomatch hparts
    | some part =>
      cases t.parts[i]? with
      | none => exact fun hparts => nomatch hparts
      | some part' =>
        rintro ⟨hpart⟩
        exact ih hpart

/-- A path that leads on from the root shows that there is a part, and what stands below it. -/
theorem equiv_of_node_at?_eq {s t : Ty}
    (h : ∀ path, (s.at? path).map node = (t.at? path).map node) : s.equiv t = true := by
  induction s using parts_induction generalizing t with
  | step s ih =>
    refine (equiv_iff_node_parts s t).2 ⟨Option.some.inj (h []), ?_⟩
    refine equivAll_iff_getElem?.2 fun i => ?_
    have hpaths (path : List Nat) := h (i :: path)
    simp only [at?] at hpaths
    revert hpaths
    cases hpart : s.parts[i]? with
    | none =>
      cases t.parts[i]? with
      | none => exact fun _ => .none
      | some part' => exact fun hpaths => nomatch hpaths []
    | some part =>
      cases t.parts[i]? with
      | none => exact fun hpaths => nomatch hpaths []
      | some part' => exact fun hpaths => .some (ih part (List.mem_of_getElem? hpart) hpaths)

/-- Equality of types looks at their structure and at nothing else, and is an equivalence. -/
theorem equiv_structural :
    (∀ a b : Ty, a.equiv b = true ↔ a.erase = b.erase) ∧
    (∀ a b : Ty, a.equiv b = true ↔ ∀ path, (a.at? path).map node = (b.at? path).map node) ∧
    Equivalence fun a b : Ty => a.equiv b = true := by
  refine ⟨equiv_iff_erase_eq, fun a b => ⟨node_at?_eq_of_equiv, equiv_of_node_at?_eq⟩, ?_⟩
  constructor
  · intro a
    exact (equiv_iff_erase_eq a a).2 rfl
  · intro a b h
    exact equiv_symm h
  · intro a b c hab hbc
    rw [equiv_iff_erase_eq] at hab hbc ⊢
    exact hab.trans hbc

example : (fn int [int] ["x"] []).equiv (fn int [int] ["y"] ["T"]) = true := by decide

example : (tuple [int, bool]).equiv (tuple [bool, int]) = false ∧
    unit.equiv (tuple [unit]) = false ∧ (list int).equiv (tuple [int]) = false := by decide

end ExprLang.Ty
