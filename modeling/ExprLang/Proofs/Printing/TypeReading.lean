import ExprLang.Proofs.Parsing.Gives
import ExprLang.Proofs.Parsing.Spelling
import ExprLang.Proofs.Places.Move
import ExprLang.Proofs.Printing.Tokens
import ExprLang.TypeExpr.Parser

namespace ExprLang

open Parse Reply

namespace TypeExpr

def isFn : TypeExpr → Bool
  | fn _ _ _ _ => true
  | _ => false

mutual

/-- No function type returns a function type, which would be shown without brackets around it. -/
def Unambiguous : TypeExpr → Prop
  | int _ | bool _ | generic _ _ => True
  | list _ element => element.Unambiguous
  | tuple _ items => AllUnambiguous items
  | fn _ _ params ret => ret.isFn = false ∧ ret.Unambiguous ∧ ParamsUnambiguous params

def AllUnambiguous : List TypeExpr → Prop
  | [] => True
  | t :: ts => t.Unambiguous ∧ AllUnambiguous ts

def ParamsUnambiguous : List (Name × TypeExpr) → Prop
  | [] => True
  | (_, t) :: params => t.Unambiguous ∧ ParamsUnambiguous params

end

mutual

def decideUnambiguous : (t : TypeExpr) → Decidable t.Unambiguous
  | int _ | bool _ | generic _ _ => .isTrue trivial
  | list _ element => decideUnambiguous element
  | tuple _ items => decideAllUnambiguous items
  | fn _ _ params ret =>
    have := decideUnambiguous ret
    have := decideParamsUnambiguous params
    inferInstanceAs (Decidable (_ ∧ _ ∧ _))

def decideAllUnambiguous : (ts : List TypeExpr) → Decidable (AllUnambiguous ts)
  | [] => .isTrue trivial
  | t :: ts =>
    have := decideUnambiguous t
    have := decideAllUnambiguous ts
    inferInstanceAs (Decidable (_ ∧ _))

def decideParamsUnambiguous : (params : List (Name × TypeExpr)) →
    Decidable (ParamsUnambiguous params)
  | [] => .isTrue trivial
  | (_, t) :: params =>
    have := decideUnambiguous t
    have := decideParamsUnambiguous params
    inferInstanceAs (Decidable (_ ∧ _))

end

instance (t : TypeExpr) : Decidable t.Unambiguous := decideUnambiguous t

instance (ts : List TypeExpr) : Decidable (AllUnambiguous ts) := decideAllUnambiguous ts

end TypeExpr

theorem Token.eq_symbol {t : Token} {spelling : String} (h : t.isSymbol spelling = true) :
    ∃ c pos, t = ⟨.symbol c, spelling, pos⟩ := by
  obtain ⟨kind, text, pos⟩ := t
  cases kind with
  | symbol c => exact ⟨c, pos, by rw [← beq_iff_eq.1 h]⟩
  | identifier | bool | int | str | keyword => cases h

theorem Token.isSymbol_mark (spelling : String) : (mark spelling).isSymbol spelling = true :=
  beq_self_eq_true spelling

namespace Parse

def Opens (ts : List Token) : Prop := ∃ t us, ts = t :: us ∧ closers.any t.isSymbol = false

theorem Opens.append {ts : List Token} (h : Opens ts) (rest : List Token) : Opens (ts ++ rest) := by
  obtain ⟨t, us, rfl, ht⟩ := h
  exact ⟨t, us ++ rest, rfl, ht⟩

theorem Opens.noneNext {ts : List Token} (h : Opens ts) {close : String}
    (hclose : close ∈ closers) : NoneNext close ts := by
  obtain ⟨t, us, rfl, ht⟩ := h
  rintro _ ⟨⟩
  exact Bool.eq_false_iff.2 (List.any_eq_false.1 ht close hclose)

theorem noneNext_comma {close : String} (hclose : close ∈ closers) {t : Token}
    (ht : t.isSymbol close = true) (rest : List Token) : NoneNext "," (t :: rest) := by
  rintro _ ⟨⟩
  obtain ⟨c, pos, rfl⟩ := Token.eq_symbol ht
  simp only [closers, List.mem_cons, List.not_mem_nil, or_false] at hclose
  obtain rfl | rfl | rfl := hclose <;> rfl

variable {α β : Type} {item : Parse α} {close : String} {tokens : β → List Token} {value : β → α}

theorem series_gives {xs : List β} (hclose : close ∈ closers)
    (hitem : ∀ x ∈ xs, ∀ t rest, t = Token.mark "," ∨ t = Token.mark close →
      item.Reads (tokens x) (t :: rest) (value x))
    (hopens : ∀ x ∈ xs, Opens (tokens x)) (trailing : Bool) (n : Nat) (last : Position)
    (rest : List Token) :
    ((series close item trailing n).run last
      (Token.commaSeries (xs.map tokens) ++ Token.mark close :: rest)).Gives fun r left =>
        r.1 = xs.map value ∧ left = rest := by
  have hmark := Token.isSymbol_mark close
  induction n generalizing xs trailing with
  | zero => trivial
  | succ n ih =>
    rw [series]
    cases xs with
    | nil => exact Gives.accept hmark ⟨rfl, rfl⟩
    | cons x xs =>
      obtain ⟨hx, hxs⟩ := List.forall_mem_cons.1 hitem
      obtain ⟨hopen, hopens⟩ := List.forall_mem_cons.1 hopens
      cases xs with
      | nil =>
        apply Gives.refuse ((hopen.append _).noneNext hclose)
        apply Gives.after (hx _ rest (.inr rfl))
        apply Gives.refuse (noneNext_comma hclose hmark rest)
        exact Gives.expect hmark ⟨rfl, rfl⟩
      | cons y ys =>
        have hseries : Token.commaSeries ((x :: y :: ys).map tokens) ++ Token.mark close :: rest =
            tokens x ++ Token.mark "," ::
              (Token.commaSeries ((y :: ys).map tokens) ++ Token.mark close :: rest) :=
          List.append_assoc ..
        rw [hseries]
        apply Gives.refuse ((hopen.append _).noneNext hclose)
        apply Gives.after (hx _ _ (.inl rfl))
        apply Gives.accept (Token.isSymbol_mark ",")
        refine (ih hxs hopens true).bind fun r left hr => ?_
        obtain ⟨hr, rfl⟩ := hr
        exact ⟨by rw [List.map_cons, ← hr], rfl⟩

section Single

variable {closing : Token}

theorem series_end (hclosing : closing.isSymbol close = true) (trailing : Bool) (n : Nat)
    (rest : List Token) : (series close item trailing n).Reads [closing] rest ([], trailing) := by
  intro last
  cases n with
  | zero => trivial
  | succ n =>
    rw [series]
    exact Gives.accept hclosing ⟨rfl, rfl⟩

variable {inner rest : List Token} {a : α} (hclosing : closing.isSymbol ")" = true)
  (hopens : Opens inner)
include hclosing hopens

theorem series_single (h : item.Reads inner (closing :: rest) a) (n : Nat) :
    (series ")" item false n).Reads (inner ++ [closing]) rest ([a], false) := by
  have hclose : ")" ∈ closers := List.mem_cons_self
  intro last
  cases n with
  | zero => trivial
  | succ n =>
    rw [series, List.append_assoc]
    apply Gives.refuse ((hopens.append _).noneNext hclose)
    apply Gives.after h
    apply Gives.refuse (noneNext_comma hclose hclosing rest)
    exact Gives.expect hclosing ⟨rfl, rfl⟩

theorem series_single_comma {comma : Token} (hcomma : comma.isSymbol "," = true)
    (h : item.Reads inner (comma :: closing :: rest) a) (n : Nat) :
    (series ")" item false n).Reads (inner ++ [comma, closing]) rest ([a], true) := by
  have hclose : ")" ∈ closers := List.mem_cons_self
  intro last
  cases n with
  | zero => trivial
  | succ n =>
    rw [series, List.append_assoc]
    apply Gives.refuse ((hopens.append _).noneNext hclose)
    apply Gives.after h
    apply Gives.accept hcomma
    exact Gives.after (series_end hclosing true n rest) ⟨rfl, rfl⟩

end Single

/-- Between the brackets of a tuple, one item is told from an item in brackets by its comma. -/
theorem tuple_gives {xs : List β}
    (hitem : ∀ x ∈ xs, ∀ t rest, t = Token.mark "," ∨ t = Token.mark ")" →
      item.Reads (tokens x) (t :: rest) (value x))
    (hopens : ∀ x ∈ xs, Opens (tokens x)) (n : Nat) (last : Position) (rest : List Token) :
    ((series ")" item false n).run last
      (Token.tupleItems (xs.map tokens) ++ Token.mark ")" :: rest)).Gives fun r left =>
        r.1 = xs.map value ∧ (r.1.length = 1 → r.2 = true) ∧ left = rest := by
  have hclose : ")" ∈ closers := List.mem_cons_self
  have hplural (h : xs.length ≠ 1)
      (htokens : Token.tupleItems (xs.map tokens) = Token.commaSeries (xs.map tokens)) :
      ((series ")" item false n).run last
        (Token.tupleItems (xs.map tokens) ++ Token.mark ")" :: rest)).Gives fun r left =>
          r.1 = xs.map value ∧ (r.1.length = 1 → r.2 = true) ∧ left = rest := by
    rw [htokens]
    refine (series_gives hclose hitem hopens false n last rest).imp fun r left hr => ?_
    refine ⟨hr.1, fun hlength => ?_, hr.2⟩
    rw [hr.1, List.length_map] at hlength
    exact absurd hlength h
  cases xs with
  | nil => exact hplural nofun rfl
  | cons x xs =>
    cases xs with
    | cons y ys => exact hplural nofun rfl
    | nil =>
      obtain ⟨hx, -⟩ := List.forall_mem_cons.1 hitem
      obtain ⟨hopen, -⟩ := List.forall_mem_cons.1 hopens
      have htokens : Token.tupleItems ([x].map tokens) ++ Token.mark ")" :: rest =
          tokens x ++ [Token.mark ",", Token.mark ")"] ++ rest := by
        rw [List.append_assoc]
        exact List.append_assoc ..
      rw [htokens]
      have hread := series_single_comma (Token.isSymbol_mark ")") hopen (Token.isSymbol_mark ",")
        (hx _ (Token.mark ")" :: rest) (.inl rfl)) n last
      refine hread.imp fun r left hr => ?_
      obtain ⟨rfl, rfl⟩ := hr
      exact ⟨rfl, fun _ => rfl, rfl⟩

end Parse

namespace TypeExpr

theorem tuple_ofSeries {pos : Position} {r : List TypeExpr × Bool}
    (h : r.1.length = 1 → r.2 = true) : ofSeries pos r = tuple pos r.1 := by
  obtain ⟨ts, trailing⟩ := r
  cases ts with
  | nil => rfl
  | cons t ts =>
    cases ts with
    | nil =>
      obtain rfl : trailing = true := h rfl
      rfl
    | cons u us => rfl

/-- The first token of a type. Only function types with generics begin with a brace. -/
theorem tokens_opens (t : TypeExpr) :
    Opens t.tokens ∧ (t.isFn = false → NoneNext "\x7b" t.tokens) := by
  cases t with
  | int | bool | generic | list | tuple =>
    refine ⟨⟨_, _, rfl, rfl⟩, fun _ => ?_⟩
    rintro _ ⟨⟩
    rfl
  | fn pos generics params ret =>
    refine ⟨?_, Bool.noConfusion⟩
    cases generics with
    | nil => exact (tokens_opens ret).1.append _
    | cons g gs => exact ⟨_, _, rfl, rfl⟩

theorem noneNext_brace {t : TypeExpr} (hfn : t.isFn = false) (rest : List Token) :
    NoneNext "\x7b" (t.tokens ++ rest) := by
  obtain ⟨⟨u, us, htokens, -⟩, hnone⟩ := tokens_opens t
  rw [htokens] at hnone ⊢
  exact hnone hfn

/-- The parsers of types find the type again: as an atom whatever follows, unless it is a function
type, and as a whole type if no bracket follows that would open its parameters. -/
structure ReadBack (t : TypeExpr) : Prop where
  atom : t.isFn = false → ∀ n rest, (atom n).Reads t.tokens rest (t.move .forget)
  whole : ∀ n rest, NoneNext "(" rest → (parse n).Reads t.tokens rest (t.move .forget)

theorem ReadBack.of_atom {t : TypeExpr} (hfn : t.isFn = false)
    (h : ∀ n rest last, ((TypeExpr.atom (n + 1)).run last (t.tokens ++ rest)).Gives fun u left =>
      u = t.move .forget ∧ left = rest) : t.ReadBack := by
  have hatom (n : Nat) (rest : List Token) :
      (TypeExpr.atom n).Reads t.tokens rest (t.move .forget) := by
    intro last
    cases n with
    | zero => trivial
    | succ n => exact h n rest last
  refine ⟨fun _ => hatom, fun n rest hrest last => ?_⟩
  cases n with
  | zero => trivial
  | succ n =>
    have hgenerics : (optionalGenerics n).Reads [] (t.tokens ++ rest) [] :=
      fun last => Gives.refuse (noneNext_brace hfn rest) ⟨rfl, rfl⟩
    rw [parse]
    apply Gives.after hgenerics
    apply Gives.after (hatom n rest)
    exact Gives.refuse hrest ⟨rfl, rfl⟩

theorem identifier_reads (expected : String) (name : Name) (rest : List Token) :
    (identifier expected).Reads name.tokens rest (.name name.text) := fun _ => ⟨rfl, rfl⟩

theorem name_opens (name : Name) : Opens name.tokens := ⟨_, _, rfl, rfl⟩

theorem optionalGenerics_reads (generics : List Name) (n : Nat) {rest : List Token}
    (hrest : NoneNext "\x7b" rest) :
    (optionalGenerics n).Reads (genericTokens generics) rest
      (generics.map (Name.move .forget)) := by
  intro last
  rw [genericTokens]
  cases generics with
  | nil => exact Gives.refuse hrest ⟨rfl, rfl⟩
  | cons g gs =>
    have hseries : ((series "\x7d" (identifier "a generic name") false n).run last
        (Token.commaSeries ((g :: gs).map Name.tokens) ++ Token.mark "\x7d" :: rest)).Gives
          fun r left => r.1 = (g :: gs).map (fun name => Token.name name.text) ∧ left = rest :=
      series_gives (by decide) (fun name _ t rest _ => identifier_reads _ name (t :: rest))
        (fun name _ => name_opens name) false n last rest
    have htokens : Token.braced ((g :: gs).map Name.tokens) ++ rest = Token.mark "\x7b" ::
        (Token.commaSeries ((g :: gs).map Name.tokens) ++ Token.mark "\x7d" :: rest) := by
      rw [Token.braced, List.cons_append, List.append_assoc]
      rfl
    rw [if_neg nofun, htokens]
    apply Gives.accept (Token.isSymbol_mark _)
    refine hseries.bind fun r left hr => ?_
    obtain ⟨hr, rfl⟩ := hr
    refine ⟨?_, rfl⟩
    rw [hr, List.map_map]
    rfl

theorem param_reads {t : TypeExpr} (ht : t.ReadBack) (name : Name) (n : Nat) {rest : List Token}
    (hrest : NoneNext "(" rest) :
    (param (parse n)).Reads (tokensOfParam (name, t)) rest (moveParam .forget (name, t)) := by
  intro last
  apply Gives.after (identifier_reads "a parameter name" name _)
  apply Gives.expect (Token.isSymbol_mark ":")
  exact Gives.after (ht.whole n rest hrest) ⟨rfl, rfl⟩

theorem noneNext_open {t : Token} {close : String} (hclose : close ∈ closers)
    (ht : t = .mark "," ∨ t = .mark close) (rest : List Token) : NoneNext "(" (t :: rest) := by
  rintro _ ⟨⟩
  simp only [closers, List.mem_cons, List.not_mem_nil, or_false] at hclose
  obtain rfl | rfl := ht
  · rfl
  · obtain rfl | rfl | rfl := hclose <;> rfl

theorem params_reads {params : List (Name × TypeExpr)} (h : ∀ param ∈ params, param.2.ReadBack)
    (n : Nat) (rest : List Token) :
    (TypeExpr.params (parse n) n).Reads
      (Token.commaSeries (params.map tokensOfParam) ++ [Token.mark ")"]) rest
      (params.map (moveParam .forget)) := by
  intro last
  rw [List.append_assoc]
  refine (series_gives (by decide) ?_ ?_ false n last rest).bind fun r left hr => hr
  · intro param hparam t rest ht
    exact param_reads (h param hparam) param.1 n (noneNext_open (by decide) ht rest)
  · exact fun param _ => ⟨_, _, rfl, rfl⟩

theorem ofWord_name {name : String} (hint : name ≠ "Int") (hbool : name ≠ "Bool") :
    ofWord (.name name) = generic .start name := by
  unfold ofWord
  split
  · exact absurd ‹_› hint
  · exact absurd ‹_› hbool
  · rfl

theorem atom_name (n : Nat) (last : Position) (name : String) (rest : List Token) :
    (TypeExpr.atom (n + 1)).run last (.name name :: rest) = .ok (ofWord (.name name)) rest := by
  rw [TypeExpr.atom]
  rfl

theorem atom_bracket (n : Nat) (last : Position) (rest : List Token) :
    (TypeExpr.atom (n + 1)).run last (.mark "[" :: rest) = (do
      let element ← parse n
      expect "]"
      pure (list .start element)).run last rest := by
  rw [TypeExpr.atom]
  rfl

theorem atom_parenthesis (n : Nat) (last : Position) (rest : List Token) :
    (TypeExpr.atom (n + 1)).run last (.mark "(" :: rest) = (do
      let items ← series ")" (parse n) false n
      pure (ofSeries .start items)).run last rest := by
  rw [TypeExpr.atom]
  rfl

theorem list_readBack {element : TypeExpr} (h : element.ReadBack) (pos : Position) :
    (list pos element).ReadBack := by
  apply ReadBack.of_atom rfl
  intro n rest last
  have htokens : (list pos element).tokens ++ rest =
      .mark "[" :: (element.tokens ++ .mark "]" :: rest) := by
    simp only [tokens, Token.bracketed, Token.commaSeries, List.cons_append, List.append_assoc,
      List.nil_append]
  rw [htokens, atom_bracket]
  apply Gives.after (h.whole n _ (noneNext_open (by decide) (.inr rfl) rest))
  exact Gives.expect (Token.isSymbol_mark "]") ⟨rfl, rfl⟩

theorem tuple_readBack {items : List TypeExpr} (h : ∀ t ∈ items, t.ReadBack) (pos : Position) :
    (tuple pos items).ReadBack := by
  apply ReadBack.of_atom rfl
  intro n rest last
  have htokens : (tuple pos items).tokens ++ rest =
      .mark "(" :: (Token.tupleItems (items.map tokens) ++ .mark ")" :: rest) := by
    simp only [tokens, Token.tuple, tokensAll_eq_map, List.cons_append, List.append_assoc,
      List.nil_append]
  have hitem : ∀ t ∈ items, ∀ u rest, u = .mark "," ∨ u = .mark ")" →
      (parse n).Reads t.tokens (u :: rest) (t.move .forget) :=
    fun t ht u rest hu => (h t ht).whole n _ (noneNext_open (by decide) hu rest)
  rw [htokens, atom_parenthesis]
  refine (tuple_gives hitem (fun t _ => (tokens_opens t).1) n last rest).bind fun r left hr => ?_
  obtain ⟨hitems, hsingle, rfl⟩ := hr
  refine ⟨?_, rfl⟩
  rw [tuple_ofSeries hsingle, hitems, move, moveAll_eq_map]
  rfl

theorem fn_readBack {pos : Position} {generics : List Name} {params : List (Name × TypeExpr)}
    {ret : TypeExpr} (hret : ret.ReadBack) (hfn : ret.isFn = false)
    (hparams : ∀ param ∈ params, param.2.ReadBack) : (fn pos generics params ret).ReadBack := by
  refine ⟨nofun, fun n rest hrest last => ?_⟩
  cases n with
  | zero => trivial
  | succ n =>
    have htokens : (fn pos generics params ret).tokens ++ rest = genericTokens generics ++
        (ret.tokens ++ (Token.mark "(" :: ((Token.commaSeries (params.map tokensOfParam) ++
          [Token.mark ")"]) ++ rest))) := by
      simp only [tokens, Token.parenthesized, paramTokens_eq_map, List.append_assoc,
        List.cons_append]
    rw [htokens, parse]
    apply Gives.after (optionalGenerics_reads generics n (noneNext_brace hfn _))
    apply Gives.after (hret.atom hfn n _)
    apply Gives.accept (Token.isSymbol_mark "(")
    apply Gives.after (params_reads hparams n rest)
    refine ⟨?_, rfl⟩
    rw [move, moveParams_eq_map, pos_move]
    cases generics <;> rfl

mutual

theorem readBack : (t : TypeExpr) → t.WellSpelled → t.Unambiguous → t.ReadBack
  | int _, _, _ => .of_atom rfl fun n rest last => by
    rw [tokens, List.singleton_append, atom_name]
    exact ⟨rfl, rfl⟩
  | bool _, _, _ => .of_atom rfl fun n rest last => by
    rw [tokens, List.singleton_append, atom_name]
    exact ⟨rfl, rfl⟩
  | generic _ name, hw, _ => .of_atom rfl fun n rest last => by
    rw [tokens, List.singleton_append, atom_name, ofWord_name hw.2.1 hw.2.2]
    exact ⟨rfl, rfl⟩
  | list pos element, hw, hu => list_readBack (readBack element hw hu) pos
  | tuple pos items, hw, hu => tuple_readBack (readBackAll items hw hu) pos
  | fn _ _ params ret, hw, hu =>
    fn_readBack (readBack ret hw.2.2 hu.2.1) hu.1 (readBackParams params hw.2.1 hu.2.2)

theorem readBackAll : (ts : List TypeExpr) → AllWellSpelled ts → AllUnambiguous ts →
    ∀ t ∈ ts, t.ReadBack
  | [], _, _ => nofun
  | t :: ts, hw, hu =>
    List.forall_mem_cons.2 ⟨readBack t hw.1 hu.1, readBackAll ts hw.2 hu.2⟩

theorem readBackParams : (params : List (Name × TypeExpr)) → ParamsWellSpelled params →
    ParamsUnambiguous params → ∀ param ∈ params, param.2.ReadBack
  | [], _, _ => nofun
  | (_, t) :: params, hw, hu =>
    List.forall_mem_cons.2 ⟨readBack t hw.1.2 hu.1, readBackParams params hw.2 hu.2⟩

end

end TypeExpr

end ExprLang
