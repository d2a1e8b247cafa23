import ExprLang.Ty

namespace ExprLang

/-- A finite map from generic names to types. -/
structure Substitution where
  entries : List (String × Ty)

namespace Substitution

def empty : Substitution := ⟨[]⟩

def insert (s : Substitution) (name : String) (t : Ty) : Substitution :=
  ⟨(name, t) :: s.entries.filter fun e => e.1 != name⟩

/-- The map that a list of pairs stands for. The last pair of a name counts. -/
def ofList (pairs : List (String × Ty)) : Substitution :=
  pairs.foldl (fun s p => s.insert p.1 p.2) empty

def get? (s : Substitution) (name : String) : Option Ty := s.entries.lookup name

/-- Whether the map replaces a name. -/
def replaces (s : Substitution) (name : String) : Bool := (s.get? name).isSome

/-- Whether some replacement mentions a name, so that a declaration of it would capture. -/
def introduces (s : Substitution) (name : String) : Bool :=
  s.entries.any fun e => e.2.mentions name

/-- The names that a fresh one has to avoid within a type. -/
def taken (s : Substitution) (within : Ty) : List String :=
  within.names ++ s.entries.flatMap fun e => e.1 :: e.2.names

/-- The first of `name`, `name'`, `name''`, … that is not taken, looking at no more than `n` of
them before the last. -/
def firstFree (taken : List String) (name : String) : Nat → String
  | 0 => name
  | n + 1 => if taken.contains name then firstFree taken (name ++ "'") n else name

def totalLength : List String → Nat
  | [] => 0
  | name :: names => name.length + totalLength names

/-- A primed name that neither the type nor the map uses. A name with more primes than all taken
names have characters is free, so the search is bounded. -/
def freshName (s : Substitution) (name : String) (within : Ty) : String :=
  let taken := s.taken within
  firstFree taken (name ++ "'") (totalLength taken)

theorem length_le_totalLength {names : List String} {x : String} (h : x ∈ names) :
    x.length ≤ totalLength names := by
  induction names with
  | nil => simp at h
  | cons name names ih =>
    rw [totalLength]
    cases h with
    | head => exact Nat.le_add_right _ _
    | tail _ h => exact Nat.le_trans (ih h) (Nat.le_add_left _ _)

theorem firstFree_not_mem {taken : List String} {name : String} {n : Nat}
    (h : ∀ x ∈ taken, x.length < name.length + n) : firstFree taken name n ∉ taken := by
  induction n generalizing name with
  | zero => exact fun hmem => Nat.lt_irrefl _ (h name hmem)
  | succ n ih =>
    rw [firstFree]
    split
    · refine ih fun x hx => ?_
      have hlt := h x hx
      have hlen : (name ++ "'").length = name.length + 1 := String.length_append _ _
      omega
    · rename_i hname
      rwa [List.contains_iff_mem] at hname

theorem freshName_not_mem_taken (s : Substitution) (name : String) (within : Ty) :
    s.freshName name within ∉ s.taken within := by
  refine firstFree_not_mem fun x hx => ?_
  have hle := length_le_totalLength hx
  have hlen : (name ++ "'").length = name.length + 1 := String.length_append _ _
  omega

/-- Goes through the generics that a function type declares: drops those that the map replaces,
and renames in result and parameters those that a replacement mentions. -/
def freshen (s : Substitution) (within : Ty) (rename : Substitution → Ty → Ty) :
    List String → Ty → List Ty → List String × Ty × List Ty
  | [], ret, params => ([], ret, params)
  | g :: gs, ret, params =>
    if s.replaces g then freshen s within rename gs ret params
    else if s.introduces g then
      let fresh := s.freshName g within
      let r : Substitution := ⟨[(g, .generic fresh)]⟩
      let (kept, ret, params) := freshen s within rename gs (rename r ret) (params.map (rename r))
      (fresh :: kept, ret, params)
    else
      let (kept, ret, params) := freshen s within rename gs ret params
      (g :: kept, ret, params)

/-- Substitution in types of no more than `n` levels. A renaming keeps the number of levels. -/
def applyUpTo : Nat → Substitution → Ty → Ty
  | 0, _, t => t
  | n + 1, s, t =>
    match t with
    | .bool => .bool
    | .int => .int
    | .generic a => (s.get? a).getD (.generic a)
    | .list element => .list (applyUpTo n s element)
    | .tuple items => .tuple (items.map (applyUpTo n s))
    | .fn ret params names generics =>
      let (kept, ret, params) := freshen s t (applyUpTo n) generics ret params
      .fn (applyUpTo n s ret) (params.map (applyUpTo n s)) names kept

/-- Puts the replacements in place of the generics of a type. -/
def apply (s : Substitution) (t : Ty) : Ty := applyUpTo t.depth s t

end Substitution

end ExprLang
