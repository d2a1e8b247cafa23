import ExprLang.Program
import Mathlib.Data.List.Forall2

namespace ExprLang

theorem bind_eq_ok {ε α β : Type} {x : Except ε α} {f : α → Except ε β} {b : β} :
    (x >>= f) = .ok b ↔ ∃ a, x = .ok a ∧ f a = .ok b := by
  constructor
  · intro h
    cases x with
    | error e => cases h
    | ok a => exact ⟨a, rfl, h⟩
  · rintro ⟨a, rfl, h⟩
    exact h

theorem exists_of_mem_right {α β : Type} {R : α → β → Prop} {as : List α} {bs : List β}
    (h : List.Forall₂ R as bs) {b : β} (hb : b ∈ bs) : ∃ a ∈ as, R a b := by
  induction h with
  | nil => cases hb
  | cons hab _ ih =>
    rcases List.mem_cons.1 hb with rfl | hb
    · exact ⟨_, List.mem_cons_self, hab⟩
    · obtain ⟨a, ha, hab⟩ := ih hb
      exact ⟨a, List.mem_cons_of_mem _ ha, hab⟩

theorem Ty.demand_eq_ok {expected found : Ty} {pos : Position} {u : Unit} :
    Ty.demand expected found pos = .ok u ↔ expected.equiv found = true := by
  rw [Ty.demand]
  split <;> simp_all

theorem Ty.instantiate_eq_ok {scope : Scope} {t : Ty} {typeArgs : Option (List TypeExpr)}
    {pos : Position} {ret : Ty} {params : List Ty}
    (h : t.instantiate scope typeArgs pos = .ok (ret, params)) :
    ∃ fnRet fnParams names generics, t = .fn fnRet fnParams names generics ∧
      ((typeArgs = none ∧ ret = fnRet ∧ params = fnParams) ∨
        ∃ args resolved, typeArgs = some args ∧ generics ≠ [] ∧ args.length = generics.length ∧
          TypeExpr.resolveAll scope.generics args = .ok resolved ∧
          ret = (Substitution.ofList (generics.zip resolved)).apply fnRet ∧
          params = fnParams.map (Substitution.ofList (generics.zip resolved)).apply) := by
  cases t with
  | fn fnRet fnParams names generics =>
    refine ⟨fnRet, fnParams, names, generics, rfl, ?_⟩
    unfold Ty.instantiate at h
    dsimp only at h
    split at h
    · cases h
      exact .inl ⟨rfl, rfl, rfl⟩
    · cases h
    · cases h
    · rename_i args hgenerics
      split at h
      · rename_i hlength
        obtain ⟨resolved, hresolved, h⟩ := bind_eq_ok.1 h
        cases h
        have hgenerics : generics ≠ [] := List.isEmpty_eq_false_iff.1 hgenerics
        exact .inr ⟨args, resolved, rfl, hgenerics, hlength, hresolved, rfl, rfl⟩
      · cases h
  | _ => cases h

theorem Scope.bind_ok {scope inner : Scope} {name : Name} {t : Ty}
    (h : scope.bind name t = .ok inner) :
    scope.globals.lookup name.text = none ∧ scope.locals.lookup name.text = none ∧
      inner = { scope with locals := (name.text, t) :: scope.locals } := by
  rw [Scope.bind] at h
  split at h
  · cases h
  · rename_i hglobal
    split at h
    · cases h
    · rename_i hlocal
      cases h
      exact ⟨Option.not_isSome_iff_eq_none.1 hglobal, Option.not_isSome_iff_eq_none.1 hlocal, rfl⟩

theorem Scope.bindAll_ok {scope inner : Scope} {names : List Name} {ts : List Ty}
    (h : scope.bindAll names ts = .ok inner) :
    inner = { scope with locals := ((names.map Name.text).zip ts).reverse ++ scope.locals } := by
  induction names generalizing scope ts with
  | nil =>
    cases h
    rfl
  | cons name names ih =>
    cases ts with
    | nil =>
      cases h
      rfl
    | cons t ts =>
      rw [Scope.bindAll, bind_eq_ok] at h
      obtain ⟨next, hnext, h⟩ := h
      obtain ⟨_, _, rfl⟩ := Scope.bind_ok hnext
      rw [ih h]
      simp

/-- A type found in the place of an expected one. -/
def Ty.Equiv (expected found : Ty) : Prop := expected.equiv found = true

/-- Which callees may be given type arguments. -/
abbrev CalleeRule := Scope → Expr → Prop

def CalleeRule.any : CalleeRule := fun _ _ => True

namespace Expr

mutual

/-- The type of an expression in a scope, where only the callees of the rule take type arguments. -/
inductive HasType (rule : CalleeRule) : Scope → Expr → Ty → Prop
  | int {scope pos n} : HasType rule scope (.int pos n) .int
  | bool {scope pos b} : HasType rule scope (.bool pos b) .bool
  | str {scope pos codes} : HasType rule scope (.str pos codes) .string
  | ident {scope pos name t} (h : scope.lookup name = some t) :
    HasType rule scope (.ident pos name) t
  | list {scope pos first rest t ts} (hfirst : HasType rule scope first t)
    (hrest : HasTypes rule scope rest ts) (hfits : ∀ u ∈ ts, Ty.Equiv t u) :
    HasType rule scope (.list pos (first :: rest)) (.list t)
  | emptyOf {scope pos element t} (h : element.resolve scope.generics = .ok t) :
    HasType rule scope (.emptyOf pos element) (.list t)
  | tuple {scope pos items ts} (h : HasTypes rule scope items ts) :
    HasType rule scope (.tuple pos items) (.tuple ts)
  | call {scope pos callee generics args t ret params ts} (hcallee : HasType rule scope callee t)
    (hrule : generics.isSome = true → rule scope callee)
    (hinst : t.instantiate scope generics callee.pos = .ok (ret, params))
    (hargs : HasTypes rule scope args ts) (hfits : List.Forall₂ Ty.Equiv params ts) :
    HasType rule scope (.call pos callee generics args) ret
  | cond {scope pos test yes no u t t'} (htest : HasType rule scope test u)
    (hbool : Ty.Equiv .bool u) (hyes : HasType rule scope yes t)
    (hno : HasType rule scope no t') (hfits : Ty.Equiv t t') :
    HasType rule scope (.cond pos test yes no) t
  | unpack {scope pos head tail whole yes no element scope₁ scope₂ t t'}
    (hwhole : HasType rule scope whole (.list element))
    (hhead : scope.bind head element = .ok scope₁)
    (htail : scope₁.bind tail (.list element) = .ok scope₂)
    (hyes : HasType rule scope₂ yes t) (hno : HasType rule scope no t') (hfits : Ty.Equiv t t') :
    HasType rule scope (.unpack pos head tail whole yes no) t
  | letName {scope pos name value body u inner t} (hvalue : HasType rule scope value u)
    (hbind : scope.bind name u = .ok inner) (hbody : HasType rule inner body t) :
    HasType rule scope (.letName pos name value body) t
  | letTuple {scope pos names value body ts inner t} (hvalue : HasType rule scope value (.tuple ts))
    (hlength : ts.length = names.length) (hbind : scope.bindAll names ts = .ok inner)
    (hbody : HasType rule inner body t) :
    HasType rule scope (.letTuple pos names value body) t
  | cons {scope pos head tail element h} (htail : HasType rule scope tail (.list element))
    (hhead : HasType rule scope head h) (hfits : Ty.Equiv element h) :
    HasType rule scope (.cons pos head tail) (.list element)
  | binary {scope pos op left right l r} (hleft : HasType rule scope left l)
    (hl : Ty.Equiv op.signature.1 l) (hright : HasType rule scope right r)
    (hr : Ty.Equiv op.signature.1 r) :
    HasType rule scope (.binary pos op left right) op.signature.2
  | unary {scope pos op operand t} (hoperand : HasType rule scope operand t)
    (hfits : Ty.Equiv op.type t) :
    HasType rule scope (.unary pos op operand) op.type

inductive HasTypes (rule : CalleeRule) : Scope → List Expr → List Ty → Prop
  | nil {scope} : HasTypes rule scope [] []
  | more {scope e es t ts} (he : HasType rule scope e t) (hes : HasTypes rule scope es ts) :
    HasTypes rule scope (e :: es) (t :: ts)

end

/-- Induction on a typing derivation, where the types of several expressions are found one by
one. -/
theorem HasType.induction {rule : CalleeRule}
    {motive : (scope : Scope) → (e : Expr) → (t : Ty) → HasType rule scope e t → Prop}
    (int : ∀ {scope pos n}, motive scope (.int pos n) .int .int)
    (bool : ∀ {scope pos b}, motive scope (.bool pos b) .bool .bool)
    (str : ∀ {scope pos codes}, motive scope (.str pos codes) .string .str)
    (ident : ∀ {scope pos name t} (h : scope.lookup name = some t),
      motive scope (.ident pos name) t (.ident h))
    (list : ∀ {scope pos first rest t ts} (hfirst : HasType rule scope first t)
      (hrest : HasTypes rule scope rest ts) (hfits : ∀ u ∈ ts, Ty.Equiv t u),
      motive scope first t hfirst → List.Forall₂ (fun e u => ∃ h, motive scope e u h) rest ts →
        motive scope (.list pos (first :: rest)) (.list t) (.list hfirst hrest hfits))
    (emptyOf : ∀ {scope pos element t} (h : element.resolve scope.generics = .ok t),
      motive scope (.emptyOf pos element) (.list t) (.emptyOf h))
    (tuple : ∀ {scope pos items ts} (h : HasTypes rule scope items ts),
      List.Forall₂ (fun e u => ∃ h, motive scope e u h) items ts →
        motive scope (.tuple pos items) (.tuple ts) (.tuple h))
    (call : ∀ {scope pos callee generics args t ret params ts}
      (hcallee : HasType rule scope callee t)
      (hrule : generics.isSome = true → rule scope callee)
      (hinst : t.instantiate scope generics callee.pos = .ok (ret, params))
      (hargs : HasTypes rule scope args ts) (hfits : List.Forall₂ Ty.Equiv params ts),
      motive scope callee t hcallee → List.Forall₂ (fun e u => ∃ h, motive scope e u h) args ts →
        motive scope (.call pos callee generics args) ret (.call hcallee hrule hinst hargs hfits))
    (cond : ∀ {scope pos test yes no u t t'} (htest : HasType rule scope test u)
      (hbool : Ty.Equiv .bool u) (hyes : HasType rule scope yes t) (hno : HasType rule scope no t')
      (hfits : Ty.Equiv t t'), motive scope test u htest → motive scope yes t hyes →
        motive scope no t' hno →
          motive scope (.cond pos test yes no) t (.cond htest hbool hyes hno hfits))
    (unpack : ∀ {scope pos head tail whole yes no element scope₁ scope₂ t t'}
      (hwhole : HasType rule scope whole (.list element))
      (hhead : scope.bind head element = .ok scope₁)
      (htail : scope₁.bind tail (.list element) = .ok scope₂) (hyes : HasType rule scope₂ yes t)
      (hno : HasType rule scope no t') (hfits : Ty.Equiv t t'),
      motive scope whole (.list element) hwhole → motive scope₂ yes t hyes →
        motive scope no t' hno → motive scope (.unpack pos head tail whole yes no) t
          (.unpack hwhole hhead htail hyes hno hfits))
    (letName : ∀ {scope pos name value body u inner t} (hvalue : HasType rule scope value u)
      (hbind : scope.bind name u = .ok inner) (hbody : HasType rule inner body t),
      motive scope value u hvalue → motive inner body t hbody →
        motive scope (.letName pos name value body) t (.letName hvalue hbind hbody))
    (letTuple : ∀ {scope pos names value body ts inner t}
      (hvalue : HasType rule scope value (.tuple ts)) (hlength : ts.length = names.length)
      (hbind : scope.bindAll names ts = .ok inner) (hbody : HasType rule inner body t),
      motive scope value (.tuple ts) hvalue → motive inner body t hbody →
        motive scope (.letTuple pos names value body) t (.letTuple hvalue hlength hbind hbody))
    (cons : ∀ {scope pos head tail element h} (htail : HasType rule scope tail (.list element))
      (hhead : HasType rule scope head h) (hfits : Ty.Equiv element h),
      motive scope tail (.list element) htail → motive scope head h hhead →
        motive scope (.cons pos head tail) (.list element) (.cons htail hhead hfits))
    (binary : ∀ {scope pos op left right l r} (hleft : HasType rule scope left l)
      (hl : Ty.Equiv op.signature.1 l) (hright : HasType rule scope right r)
      (hr : Ty.Equiv op.signature.1 r), motive scope left l hleft → motive scope right r hright →
        motive scope (.binary pos op left right) op.signature.2 (.binary hleft hl hright hr))
    (unary : ∀ {scope pos op operand t} (hoperand : HasType rule scope operand t)
      (hfits : Ty.Equiv op.type t), motive scope operand t hoperand →
        motive scope (.unary pos op operand) op.type (.unary hoperand hfits))
    {scope : Scope} {e : Expr} {t : Ty} (h : HasType rule scope e t) : motive scope e t h := by
  refine @HasType.rec rule motive
    (fun scope es ts _ => List.Forall₂ (fun e u => ∃ h, motive scope e u h) es ts)
    int bool str ident list emptyOf tuple call cond unpack letName letTuple cons binary unary
    .nil ?_ scope e t h
  intro scope e es t ts he hes ih ihs
  exact .cons ⟨he, ih⟩ ihs

mutual

theorem infer_sound {scope : Scope} {t : Ty} :
    (e : Expr) → e.infer scope = .ok t → HasType .any scope e t
  | int _ _, h => by cases h; exact .int
  | bool _ _, h => by cases h; exact .bool
  | str _ _, h => by cases h; exact .str
  | ident _ name, h => by
    rw [infer] at h
    split at h
    · rename_i u hu
      cases h
      exact .ident hu
    · cases h
  | list _ [], h => by rw [infer] at h; cases h
  | list _ (first :: rest), h => by
    simp only [infer, bind_eq_ok] at h
    obtain ⟨u, hu, _, hrest, ht⟩ := h
    cases ht
    obtain ⟨ts, hts, hfits⟩ := checkAll_sound rest hrest
    exact .list (infer_sound first hu) hts hfits
  | emptyOf _ element, h => by
    simp only [infer, bind_eq_ok] at h
    obtain ⟨u, hu, ht⟩ := h
    cases ht
    exact .emptyOf hu
  | tuple _ items, h => by
    simp only [infer, bind_eq_ok] at h
    obtain ⟨ts, hts, ht⟩ := h
    cases ht
    exact .tuple (inferAll_sound items hts)
  | call _ callee generics args, h => by
    simp only [infer, bind_eq_ok] at h
    obtain ⟨u, hu, ⟨ret, params⟩, hinst, h⟩ := h
    split at h
    · rename_i hlength
      obtain ⟨_, hargs, ht⟩ := bind_eq_ok.1 h
      cases ht
      obtain ⟨ts, hts, hfits⟩ := checkArgs_sound args hlength hargs
      exact .call (infer_sound callee hu) (fun _ => trivial) hinst hts hfits
    · cases h
  | cond _ test yes no, h => by
    simp only [infer, bind_eq_ok, Ty.demand_eq_ok] at h
    obtain ⟨u, hu, _, hbool, yesTy, hyes, noTy, hno, h⟩ := h
    split at h
    · rename_i hfits
      cases h
      exact .cond (infer_sound test hu) hbool (infer_sound yes hyes) (infer_sound no hno) hfits
    · cases h
  | unpack _ head tail whole yes no, h => by
    simp only [infer, bind_eq_ok] at h
    obtain ⟨u, hu, h⟩ := h
    split at h
    · simp only [bind_eq_ok] at h
      obtain ⟨scope₁, h₁, scope₂, h₂, yesTy, hyes, noTy, hno, h⟩ := h
      split at h
      · rename_i hfits
        cases h
        exact .unpack (infer_sound whole hu) h₁ h₂ (infer_sound yes hyes) (infer_sound no hno) hfits
      · cases h
    · cases h
  | letName _ name value body, h => by
    simp only [infer, bind_eq_ok] at h
    obtain ⟨u, hu, inner, hbind, hbody⟩ := h
    exact .letName (infer_sound value hu) hbind (infer_sound body hbody)
  | letTuple _ names value body, h => by
    simp only [infer, bind_eq_ok] at h
    obtain ⟨u, hu, h⟩ := h
    split at h
    · split at h
      · rename_i hlength
        obtain ⟨inner, hbind, hbody⟩ := bind_eq_ok.1 h
        exact .letTuple (infer_sound value hu) hlength hbind (infer_sound body hbody)
      · cases h
    · cases h
  | cons _ head tail, h => by
    simp only [infer, bind_eq_ok] at h
    obtain ⟨u, hu, h⟩ := h
    split at h
    · simp only [bind_eq_ok, Ty.demand_eq_ok] at h
      obtain ⟨v, hv, _, hfits, ht⟩ := h
      cases ht
      exact .cons (infer_sound tail hu) (infer_sound head hv) hfits
    · cases h
  | binary _ op left right, h => by
    simp only [infer, bind_eq_ok, Ty.demand_eq_ok] at h
    obtain ⟨l, hl, _, hl', r, hr, _, hr', ht⟩ := h
    cases ht
    exact .binary (infer_sound left hl) hl' (infer_sound right hr) hr'
  | unary _ op operand, h => by
    simp only [infer, bind_eq_ok, Ty.demand_eq_ok] at h
    obtain ⟨u, hu, _, hfits, ht⟩ := h
    cases ht
    exact .unary (infer_sound operand hu) hfits

theorem inferAll_sound {scope : Scope} {ts : List Ty} :
    (es : List Expr) → inferAll scope es = .ok ts → HasTypes .any scope es ts
  | [], h => by cases h; exact .nil
  | e :: es, h => by
    simp only [inferAll, bind_eq_ok] at h
    obtain ⟨t, ht, us, hus, hts⟩ := h
    cases hts
    exact .more (infer_sound e ht) (inferAll_sound es hus)

theorem checkAll_sound {scope : Scope} {expected : Ty} {u : Unit} :
    (es : List Expr) → checkAll scope expected es = .ok u →
      ∃ ts, HasTypes .any scope es ts ∧ ∀ t ∈ ts, Ty.Equiv expected t
  | [], _ => ⟨[], .nil, by simp⟩
  | e :: es, h => by
    simp only [checkAll, bind_eq_ok, Ty.demand_eq_ok] at h
    obtain ⟨t, ht, _, hfits, hes⟩ := h
    obtain ⟨ts, hts, hall⟩ := checkAll_sound es hes
    exact ⟨t :: ts, .more (infer_sound e ht) hts, List.forall_mem_cons.2 ⟨hfits, hall⟩⟩

theorem checkArgs_sound {scope : Scope} {params : List Ty} {u : Unit} :
    (es : List Expr) → params.length = es.length → checkArgs scope params es = .ok u →
      ∃ ts, HasTypes .any scope es ts ∧ List.Forall₂ Ty.Equiv params ts
  | [], hlength, _ => by
    rw [List.length_eq_zero_iff.1 hlength]
    exact ⟨[], .nil, .nil⟩
  | e :: es, hlength, h => by
    cases params with
    | nil => cases hlength
    | cons p params =>
      simp only [checkArgs, bind_eq_ok, Ty.demand_eq_ok] at h
      obtain ⟨t, ht, _, hfits, hes⟩ := h
      obtain ⟨ts, hts, hall⟩ := checkArgs_sound es (Nat.succ.inj hlength) hes
      exact ⟨t :: ts, .more (infer_sound e ht) hts, .cons hfits hall⟩

end

mutual

theorem infer_complete {scope : Scope} {t : Ty} :
    (e : Expr) → HasType .any scope e t → e.infer scope = .ok t
  | int _ _, .int => rfl
  | bool _ _, .bool => rfl
  | str _ _, .str => rfl
  | ident _ _, .ident h => by rw [infer, h]
  | list _ (first :: rest), .list hfirst hrest hfits => by
    simp only [infer, bind_eq_ok]
    exact ⟨_, infer_complete first hfirst, _, checkAll_complete rest hrest hfits, rfl⟩
  | emptyOf _ _, .emptyOf h => by
    simp only [infer, bind_eq_ok]
    exact ⟨_, h, rfl⟩
  | tuple _ items, .tuple h => by
    simp only [infer, bind_eq_ok]
    exact ⟨_, inferAll_complete items h, rfl⟩
  | call _ callee _ args, .call hcallee _ hinst hargs hfits => by
    obtain ⟨hlength, hargs⟩ := checkArgs_complete args hargs hfits
    simp only [infer, bind_eq_ok]
    refine ⟨_, infer_complete callee hcallee, _, hinst, ?_⟩
    rw [if_pos hlength, hargs]
    rfl
  | cond _ test yes no, .cond htest hbool hyes hno hfits => by
    simp only [infer, bind_eq_ok, Ty.demand_eq_ok]
    exact ⟨_, infer_complete test htest, (), hbool, _, infer_complete yes hyes, _,
      infer_complete no hno, if_pos hfits⟩
  | unpack _ _ _ whole yes no, .unpack hwhole hhead htail hyes hno hfits => by
    simp only [infer, bind_eq_ok]
    refine ⟨_, infer_complete whole hwhole, ?_⟩
    simp only [bind_eq_ok]
    exact ⟨_, hhead, _, htail, _, infer_complete yes hyes, _, infer_complete no hno,
      if_pos hfits⟩
  | letName _ _ value body, .letName hvalue hbind hbody => by
    simp only [infer, bind_eq_ok]
    exact ⟨_, infer_complete value hvalue, _, hbind, infer_complete body hbody⟩
  | letTuple _ _ value body, .letTuple hvalue hlength hbind hbody => by
    simp only [infer, bind_eq_ok]
    refine ⟨_, infer_complete value hvalue, ?_⟩
    simp only [hlength, if_true, bind_eq_ok]
    exact ⟨_, hbind, infer_complete body hbody⟩
  | cons _ head tail, .cons htail hhead hfits => by
    simp only [infer, bind_eq_ok]
    refine ⟨_, infer_complete tail htail, ?_⟩
    simp only [bind_eq_ok, Ty.demand_eq_ok]
    exact ⟨_, infer_complete head hhead, (), hfits, rfl⟩
  | binary _ _ left right, .binary hleft hl hright hr => by
    simp only [infer, bind_eq_ok, Ty.demand_eq_ok]
    exact ⟨_, infer_complete left hleft, (), hl, _, infer_complete right hright, (), hr, rfl⟩
  | unary _ _ operand, .unary hoperand hfits => by
    simp only [infer, bind_eq_ok, Ty.demand_eq_ok]
    exact ⟨_, infer_complete operand hoperand, (), hfits, rfl⟩

theorem inferAll_complete {scope : Scope} {ts : List Ty} :
    (es : List Expr) → HasTypes .any scope es ts → inferAll scope es = .ok ts
  | [], .nil => rfl
  | e :: es, .more he hes => by
    simp only [inferAll, bind_eq_ok]
    exact ⟨_, infer_complete e he, _, inferAll_complete es hes, rfl⟩

theorem checkAll_complete {scope : Scope} {expected : Ty} {ts : List Ty} :
    (es : List Expr) → HasTypes .any scope es ts → (∀ t ∈ ts, Ty.Equiv expected t) →
      checkAll scope expected es = .ok ()
  | [], .nil, _ => rfl
  | e :: es, .more he hes, hfits => by
    obtain ⟨hfit, hfits⟩ := List.forall_mem_cons.1 hfits
    simp only [checkAll, bind_eq_ok, Ty.demand_eq_ok]
    exact ⟨_, infer_complete e he, (), hfit, checkAll_complete es hes hfits⟩

theorem checkArgs_complete {scope : Scope} {params ts : List Ty} :
    (es : List Expr) → HasTypes .any scope es ts → List.Forall₂ Ty.Equiv params ts →
      params.length = es.length ∧ checkArgs scope params es = .ok ()
  | [], .nil, .nil => ⟨rfl, rfl⟩
  | e :: es, .more he hes, .cons hfit hfits => by
    obtain ⟨hlength, hargs⟩ := checkArgs_complete es hes hfits
    simp only [checkArgs, bind_eq_ok, Ty.demand_eq_ok]
    exact ⟨congrArg Nat.succ hlength, _, infer_complete e he, (), hfit, hargs⟩

end

/-- Inference finds exactly the type of the judgment without a rule for callees. -/
theorem infer_eq_ok_iff {scope : Scope} {e : Expr} {t : Ty} :
    e.infer scope = .ok t ↔ HasType .any scope e t :=
  ⟨infer_sound e, infer_complete e⟩

end Expr

end ExprLang
