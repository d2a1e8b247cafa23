import ExprLang.Proofs.Printing.Scanning
import ExprLang.Proofs.Printing.Separable
import ExprLang.Proofs.Ty.Legible

namespace ExprLang

open Lexeme

def isNamePart (c : Char) : Bool := isWordPart c || c == '\''

def endsName (c : Char) : Bool := !isNamePart c

/-- A character that ends a type may follow: neither does it go on with a name, nor does it open a
group of parameters. -/
def endsType (c : Char) : Bool := c != '(' && endsName c

theorem endsType_of_closing {c : Char} (hc : (c == ')') = true) : endsType c = true := by
  rw [beq_iff_eq.1 hc]
  rfl

namespace IsPrimedWord

variable {name other : String}

theorem begins (h : IsPrimedWord name) : Begins isWordStart name := by
  obtain ⟨c, cs, n, hname, hc, -⟩ := h
  exact ⟨c, _, hname, hc⟩

theorem isNamePart_of_mem (h : IsPrimedWord name) : ∀ d ∈ name.toList, isNamePart d = true := by
  obtain ⟨c, cs, n, hname, hc, hcs⟩ := h
  intro d hd
  rw [hname, List.mem_cons, List.mem_append] at hd
  rw [isNamePart, Bool.or_eq_true]
  rcases hd with rfl | hd | hd
  · left
    rw [isWordStart, Bool.or_eq_true] at hc
    rw [isWordPart, Char.isAlphanum, Bool.or_eq_true, Bool.or_eq_true]
    exact hc.imp_left Or.inl
  · exact .inl (hcs d hd)
  · exact .inr (beq_iff_eq.2 (List.eq_of_mem_replicate hd))

theorem separable (h : IsPrimedWord name) (h' : IsPrimedWord other) :
    Separable endsName name other (name = other) :=
  .of_run h.isNamePart_of_mem h'.isNamePart_of_mem fun _ hc => hc

end IsPrimedWord

namespace Ty

/-- The innermost result of a type. -/
def atom : Ty → Ty
  | fn ret _ _ _ => ret.atom
  | t => t

/-- The generics that the function types on the way to the innermost result declare. -/
def heads : Ty → List (List String)
  | fn ret _ _ generics => if generics.isEmpty then ret.heads else generics :: ret.heads
  | _ => []

/-- The names and the types of the parameters that lead to the innermost result, from the last group
to be called to the first. -/
def groups : Ty → List (List String × List Ty)
  | fn ret params names _ => ret.groups ++ [(names, params)]
  | _ => []

/-- The element of a list type and the items of a tuple type. -/
def items : Ty → List Ty
  | list t => [t]
  | tuple ts => ts
  | _ => []

def headText (generics : List String) : String := Text.braced generics ++ " "

def groupText (group : List String × List Ty) : String :=
  "(" ++ Text.commaSeries (paramTexts group.1 (texts group.2)) ++ ")"

/-- Induction on the parts of the innermost result and on the parameters that lead to it. -/
theorem spine_induction {motive : Ty → Prop}
    (h : ∀ t, (∀ u ∈ t.atom.items, motive u) → (∀ g ∈ t.groups, ∀ u ∈ g.2, motive u) → motive t)
    (t : Ty) : motive t := by
  have hspine : (∀ u ∈ t.atom.items, motive u) ∧ ∀ g ∈ t.groups, ∀ u ∈ g.2, motive u := by
    induction t using Ty.induction with
    | bool => exact ⟨List.forall_mem_nil _, List.forall_mem_nil _⟩
    | int => exact ⟨List.forall_mem_nil _, List.forall_mem_nil _⟩
    | generic a => exact ⟨List.forall_mem_nil _, List.forall_mem_nil _⟩
    | list t ih => exact ⟨List.forall_mem_singleton.2 (h t ih.1 ih.2), List.forall_mem_nil _⟩
    | tuple ts ih => exact ⟨fun t ht => h t (ih t ht).1 (ih t ht).2, List.forall_mem_nil _⟩
    | fn ret params names generics ihRet ihParams =>
      have hparams : ∀ t ∈ params, motive t := fun t ht => h t (ihParams t ht).1 (ihParams t ht).2
      exact ⟨ihRet.1, List.forall_mem_append.2 ⟨ihRet.2, List.forall_mem_singleton.2 hparams⟩⟩
  exact h t hspine.1 hspine.2

/-- A text has the generics of all function types on the way in front, then the innermost result,
then all groups of parameters. -/
theorem text_eq_spine (t : Ty) :
    t.text = Text.concat (t.heads.map headText) ++ (t.atom.text ++
      Text.concat (t.groups.map groupText)) := by
  have hplain (text : String) : text = "" ++ (text ++ "") := by
    rw [String.append_empty, String.empty_append]
  induction t using Ty.induction with
  | bool => exact hplain _
  | int => exact hplain _
  | generic a => exact hplain _
  | list t ih => exact hplain _
  | tuple ts ih => exact hplain _
  | fn ret params names generics ihRet ihParams =>
    have hheads : Text.concat ((fn ret params names generics).heads.map headText) =
        (if generics.isEmpty then "" else headText generics) ++
          Text.concat (ret.heads.map headText) := by
      rw [heads]
      cases generics with
      | nil => exact (String.empty_append).symm
      | cons g gs => rfl
    have hgroups : Text.concat ((fn ret params names generics).groups.map groupText) =
        Text.concat (ret.groups.map groupText) ++ groupText (names, params) := by
      rw [groups, List.map_append, Text.concat_append]
      exact congrArg _ String.append_empty
    rw [text, hheads, hgroups, ihRet, headText, groupText, atom]
    simp only [String.append_assoc]

theorem erase_eq_spine (t : Ty) :
    t.erase = (t.groups.map fun g => g.2.map erase).foldl (fun ret params => fn ret params [] [])
      t.atom.erase := by
  induction t using Ty.induction with
  | bool => rfl
  | int => rfl
  | generic a => rfl
  | list t ih => rfl
  | tuple ts ih => rfl
  | fn ret params names generics ihRet ihParams =>
    rw [erase, ihRet, groups, List.map_append, List.foldl_append, eraseAll_eq_map]
    rfl

/-- A group names each of its parameters, and what it shows is legible. -/
structure LegibleGroup (group : List String × List Ty) : Prop where
  length_eq : group.1.length = group.2.length
  names : ∀ name ∈ group.1, IsPrimedWord name
  params : ∀ t ∈ group.2, t.Legible

structure LegibleSpine (t : Ty) : Prop where
  atom : t.atom.Legible
  heads : ∀ gs ∈ t.heads, ∀ g ∈ gs, IsPrimedWord g
  groups : ∀ group ∈ t.groups, LegibleGroup group

theorem Legible.spine {t : Ty} (h : t.Legible) : t.LegibleSpine := by
  induction t using Ty.induction with
  | bool => exact ⟨h, List.forall_mem_nil _, List.forall_mem_nil _⟩
  | int => exact ⟨h, List.forall_mem_nil _, List.forall_mem_nil _⟩
  | generic a => exact ⟨h, List.forall_mem_nil _, List.forall_mem_nil _⟩
  | list t ih => exact ⟨h, List.forall_mem_nil _, List.forall_mem_nil _⟩
  | tuple ts ih => exact ⟨h, List.forall_mem_nil _, List.forall_mem_nil _⟩
  | fn ret params names generics ihRet ihParams =>
    obtain ⟨hlength, hnames, hgenerics, hret, hparams⟩ := h
    obtain ⟨hatom, hheads, hgroups⟩ := ihRet hret
    have hgroup : LegibleGroup (names, params) := ⟨hlength, hnames, allLegible_iff.1 hparams⟩
    constructor
    · exact hatom
    · rw [heads]
      split
      · exact hheads
      · exact List.forall_mem_cons.2 ⟨hgenerics, hheads⟩
    · exact List.forall_mem_append.2 ⟨hgroups, List.forall_mem_singleton.2 hgroup⟩

theorem Legible.of_mem_items {t u : Ty} (h : t.Legible) (hu : u ∈ t.items) : u.Legible := by
  cases t with
  | list e =>
    rw [List.mem_singleton.1 hu]
    exact h
  | tuple ts => exact allLegible_iff.1 h u hu
  | _ => cases hu

/-- The word that a basic type or a generic is shown as. -/
def word? : Ty → Option String
  | bool => some "Bool"
  | int => some "Int"
  | generic a => some a
  | _ => none

theorem text_of_word? {t : Ty} {word : String} (h : t.word? = some word) : t.text = word := by
  cases t with
  | bool => exact Option.some.inj h
  | int => exact Option.some.inj h
  | generic a => exact Option.some.inj h
  | _ => cases h

theorem Legible.isPrimedWord {t : Ty} {word : String} (ht : t.Legible) (h : t.word? = some word) :
    IsPrimedWord word := by
  cases t with
  | bool =>
    cases h
    exact TypeExpr.isName_bool.isPrimedWord
  | int =>
    cases h
    exact TypeExpr.isName_int.isPrimedWord
  | generic a =>
    cases h
    exact ht.1
  | _ => cases h

theorem Legible.eq_of_word? {t u : Ty} {word : String} (ht : t.Legible) (hu : u.Legible)
    (h : t.word? = some word) (h' : u.word? = some word) : t = u := by
  rw [← h'] at h
  cases t with
  | bool =>
    cases u with
    | bool => rfl
    | int => exact absurd (Option.some.inj h) (by decide)
    | generic b => exact absurd (Option.some.inj h).symm hu.2.2
    | _ => cases h
  | int =>
    cases u with
    | bool => exact absurd (Option.some.inj h) (by decide)
    | int => rfl
    | generic b => exact absurd (Option.some.inj h).symm hu.2.1
    | _ => cases h
  | generic a =>
    cases u with
    | bool => exact absurd (Option.some.inj h) ht.2.2
    | int => exact absurd (Option.some.inj h) ht.2.1
    | generic b => rw [Option.some.inj h]
    | _ => cases h
  | _ => cases h.trans h'

theorem atom_cases (t : Ty) :
    (∃ word, t.atom.word? = some word) ∨ (∃ e, t.atom = list e) ∨ ∃ ts, t.atom = tuple ts := by
  induction t using Ty.induction with
  | bool => exact .inl ⟨_, rfl⟩
  | int => exact .inl ⟨_, rfl⟩
  | generic a => exact .inl ⟨_, rfl⟩
  | list t ih => exact .inr (.inl ⟨t, rfl⟩)
  | tuple ts ih => exact .inr (.inr ⟨ts, rfl⟩)
  | fn ret params names generics ihRet ihParams => exact ihRet

theorem texts_eq_map (ts : List Ty) : texts ts = ts.map text := by
  induction ts with
  | nil => rfl
  | cons t ts ih => rw [texts, ih, List.map_cons]

def paramText (param : String × Ty) : String := param.1 ++ (": " ++ param.2.text)

theorem paramTexts_eq_map {names : List String} {params : List Ty}
    (h : names.length = params.length) :
    paramTexts names (texts params) = (names.zip params).map paramText := by
  induction names generalizing params with
  | nil =>
    cases params with
    | nil => rfl
    | cons t params => cases h
  | cons name names ih =>
    cases params with
    | nil => cases h
    | cons t params =>
      rw [texts, paramTexts, ih (Nat.succ.inj h), List.zip_cons_cons, List.map_cons, paramText,
        String.append_assoc]

def isAtomStart (c : Char) : Bool := isWordStart c || c == '[' || c == '('

theorem list_begins (t : Ty) : Begins (· == '[') (list t).text :=
  (Begins.append ⟨'[', [], rfl, rfl⟩ _).append _

theorem tuple_begins (ts : List Ty) : Begins (· == '(') (tuple ts).text := by
  rw [text, texts_eq_map]
  cases ts with
  | nil => exact ⟨'(', [')'], rfl, rfl⟩
  | cons t ts =>
    rw [List.map_cons, Text.tuple_cons]
    exact Begins.append ⟨'(', [], rfl, rfl⟩ _

theorem atom_begins {t : Ty} (h : t.atom.Legible) : Begins isAtomStart t.atom.text := by
  rcases t.atom_cases with ⟨word, hword⟩ | ⟨e, hatom⟩ | ⟨ts, hatom⟩
  · rw [text_of_word? hword]
    apply (h.isPrimedWord hword).begins.weaken
    intro c hc
    rw [isAtomStart, hc]
    rfl
  · rw [hatom]
    apply (list_begins e).weaken
    intro c hc
    rw [beq_iff_eq.1 hc]
    rfl
  · rw [hatom]
    apply (tuple_begins ts).weaken
    intro c hc
    rw [beq_iff_eq.1 hc]
    rfl

theorem ne_of_isAtomStart {c d : Char} (hd : isAtomStart d = false) (hc : isAtomStart c = true) :
    (c != d) = true := by
  rw [bne_iff_ne]
  rintro rfl
  exact absurd hc (ne_true_of_eq_false hd)

theorem headText_begins (generics : List String) : Begins (· == '\x7b') (headText generics) :=
  ((Begins.append ⟨'\x7b', [], rfl, rfl⟩ _).append _).append _

theorem Legible.text_begins {t : Ty} (h : t.Legible) : Begins (· != ')') t.text := by
  rw [text_eq_spine]
  cases t.heads with
  | nil =>
    rw [List.map_nil, Text.concat, String.empty_append]
    exact ((atom_begins h.spine.atom).weaken fun c => ne_of_isAtomStart rfl).append _
  | cons gs hs =>
    apply (((headText_begins gs).append _).append _).weaken
    intro c hc
    rw [beq_iff_eq.1 hc]
    rfl

/-- The texts of two types tell whether they have the same structure. -/
def Told (t u : Ty) : Prop := Separable endsType t.text u.text (t.erase = u.erase)

theorem heads_separable {hs hs' : List (List String)} (h : ∀ gs ∈ hs, ∀ g ∈ gs, IsPrimedWord g)
    (h' : ∀ gs ∈ hs', ∀ g ∈ gs, IsPrimedWord g) :
    Separable (· != '\x7b') (Text.concat (hs.map headText)) (Text.concat (hs'.map headText))
      (hs.map headText = hs'.map headText) := by
  have hinside {gs : List String} (hgs : ∀ g ∈ gs, IsPrimedWord g) :
      ∀ c ∈ (Text.commaSeries gs).toList, (c != '\x7d') = true := by
    intro c hc
    rw [bne_iff_ne]
    rintro rfl
    rcases Text.mem_commaSeries hc with hmem | ⟨g, hg, hmem⟩
    · exact absurd hmem (by decide)
    · exact absurd ((hgs g hg).isNamePart_of_mem _ hmem) (by decide)
  apply Separable.concat '\x7b' rfl rfl (fun _ _ => rfl)
  · exact fun gs _ => headText_begins gs
  · exact fun gs _ => headText_begins gs
  · intro gs hgs gs' hgs'
    have hseries : Separable (· == '\x7d') (Text.commaSeries gs) (Text.commaSeries gs')
        (Text.commaSeries gs = Text.commaSeries gs') := by
      apply Separable.of_run (hinside (h gs hgs)) (hinside (h' gs' hgs'))
      intro c hc
      rw [beq_iff_eq.1 hc]
      rfl
    have hbraced := (hseries.opening "\x7b").closing "\x7d" ⟨'\x7d', [], rfl, rfl⟩
    apply (hbraced.closing " " ⟨' ', [], rfl, rfl⟩).imp
    intro heq
    rw [headText, headText, Text.braced, Text.braced, heq]

theorem group_separable {g g' : List String × List Ty} (h : LegibleGroup g) (h' : LegibleGroup g')
    (ih : ∀ t ∈ g.2, ∀ u ∈ g'.2, t.Told u) :
    Separable anything (groupText g) (groupText g') (g.2.map erase = g'.2.map erase) := by
  have hkeys {g : List String × List Ty} (h : LegibleGroup g) :
      (g.1.zip g.2).map (fun p => p.2.erase) = g.2.map erase := by
    have hparams := List.map_snd_zip (Nat.le_of_eq h.length_eq.symm)
    rw [← hparams, List.map_map, hparams]
    rfl
  have hbegins {g : List String × List Ty} (h : LegibleGroup g) :
      ∀ p ∈ g.1.zip g.2, Begins (· != ')') (paramText p) := by
    intro p hp
    apply ((h.names _ (List.of_mem_zip hp).1).begins.append _).weaken
    intro c hc
    rw [bne_iff_ne]
    rintro rfl
    exact absurd hc (by decide)
  have hparam : ∀ p ∈ g.1.zip g.2, ∀ q ∈ g'.1.zip g'.2,
      Separable endsType (paramText p) (paramText q) (p.2.erase = q.2.erase) := by
    intro p hp q hq
    obtain ⟨hpName, hpType⟩ := List.of_mem_zip hp
    obtain ⟨hqName, hqType⟩ := List.of_mem_zip hq
    have hcolon (t : Ty) : Begins endsName (": " ++ t.text) :=
      Begins.append ⟨':', [' '], rfl, rfl⟩ _
    have hnames := (h.names _ hpName).separable (h'.names _ hqName)
    have htypes := (ih _ hpType _ hqType).opening ": "
    have happend := hnames.append htypes (fun u _ => (hcolon _).allows u)
      fun v _ => (hcolon _).allows v
    exact happend.imp And.right
  rw [groupText, groupText, paramTexts_eq_map h.length_eq, paramTexts_eq_map h'.length_eq,
    ← hkeys h, ← hkeys h']
  have hseries := Separable.commaSeries rfl (fun c => endsType_of_closing) hparam (hbegins h)
    (hbegins h')
  exact (hseries.opening "(").closing ")" ⟨')', [], rfl, rfl⟩

theorem groupText_begins (g : List String × List Ty) : Begins (· == '(') (groupText g) :=
  (Begins.append ⟨'(', [], rfl, rfl⟩ _).append _

theorem groups_separable {gs gs' : List (List String × List Ty)} (h : ∀ g ∈ gs, LegibleGroup g)
    (h' : ∀ g ∈ gs', LegibleGroup g) (ih : ∀ g ∈ gs, ∀ g' ∈ gs', ∀ t ∈ g.2, ∀ u ∈ g'.2, t.Told u) :
    Separable endsType (Text.concat (gs.map groupText)) (Text.concat (gs'.map groupText))
      ((gs.map fun g => g.2.map erase) = gs'.map fun g => g.2.map erase) := by
  apply Separable.concat '(' rfl rfl (fun _ _ => rfl)
  · exact fun g _ => groupText_begins g
  · exact fun g _ => groupText_begins g
  · exact fun g hg g' hg' => group_separable (h g hg) (h' g' hg') (ih g hg g' hg')

theorem list_separable {t u : Ty} (h : t.Told u) :
    Separable endsName (list t).text (list u).text ((list t).erase = (list u).erase) := by
  have hbrackets := (h.opening "[").closing "]" ⟨']', [], rfl, rfl⟩
  exact (hbrackets.weaken fun _ _ => rfl).imp (congrArg list)

theorem tuple_separable {ts us : List Ty} (hts : AllLegible ts) (hus : AllLegible us)
    (h : ∀ t ∈ ts, ∀ u ∈ us, t.Told u) :
    Separable endsName (tuple ts).text (tuple us).text ((tuple ts).erase = (tuple us).erase) := by
  have hbegins {ts : List Ty} (hts : AllLegible ts) : ∀ t ∈ ts, Begins (· != ')') t.text :=
    fun t ht => (allLegible_iff.1 hts t ht).text_begins
  have htuple := Separable.tuple rfl (fun c => endsType_of_closing) h (hbegins hts) (hbegins hus)
  rw [text, text, texts_eq_map, texts_eq_map, erase, erase, eraseAll_eq_map, eraseAll_eq_map]
  exact (htuple.weaken fun _ _ => rfl).imp (congrArg tuple)

theorem atom_separable {t u : Ty} (ht : t.atom.Legible) (hu : u.atom.Legible)
    (ih : ∀ v ∈ t.atom.items, ∀ w ∈ u.atom.items, v.Told w) :
    Separable endsName t.atom.text u.atom.text (t.atom.erase = u.atom.erase) := by
  have hword {t : Ty} {word : String} (ht : t.Legible) (h : t.word? = some word) :
      Begins isWordStart t.text := by
    rw [text_of_word? h]
    exact (ht.isPrimedWord h).begins
  have hne {p : Char → Bool} {d : Char} (hd : p d = false) (c : Char) (hc : p c = true) :
      (c == d) = false := by
    rw [beq_eq_false_iff_ne]
    rintro rfl
    exact absurd hc (ne_true_of_eq_false hd)
  rcases t.atom_cases with ⟨word, hatom⟩ | ⟨e, hatom⟩ | ⟨ts, hatom⟩
  · rcases u.atom_cases with ⟨word', hatom'⟩ | ⟨e', hatom'⟩ | ⟨us, hatom'⟩
    · rw [text_of_word? hatom, text_of_word? hatom']
      apply ((ht.isPrimedWord hatom).separable (hu.isPrimedWord hatom')).imp
      rintro rfl
      rw [ht.eq_of_word? hu hatom hatom']
    · rw [hatom']
      exact .of_begins (hword ht hatom) (list_begins e') (hne rfl)
    · rw [hatom']
      exact .of_begins (hword ht hatom) (tuple_begins us) (hne rfl)
  · rcases u.atom_cases with ⟨word', hatom'⟩ | ⟨e', hatom'⟩ | ⟨us, hatom'⟩
    · rw [hatom]
      exact .symm (.of_begins (hword hu hatom') (list_begins e) (hne rfl))
    · rw [hatom, hatom'] at ih ⊢
      exact list_separable (ih e List.mem_cons_self e' List.mem_cons_self)
    · rw [hatom, hatom']
      exact .of_begins (list_begins e) (tuple_begins us) (hne rfl)
  · rcases u.atom_cases with ⟨word', hatom'⟩ | ⟨e', hatom'⟩ | ⟨us, hatom'⟩
    · rw [hatom]
      exact .symm (.of_begins (hword hu hatom') (tuple_begins ts) (hne rfl))
    · rw [hatom, hatom']
      exact .symm (.of_begins (list_begins e') (tuple_begins ts) (hne rfl))
    · rw [hatom] at ht ih ⊢
      rw [hatom'] at hu ih ⊢
      exact tuple_separable ht hu ih

theorem groups_allow (t : Ty) (u : List Char) (hu : u.head?.all endsType = true) :
    ((Text.concat (t.groups.map groupText)).toList ++ u).head?.all endsName = true := by
  have hopening : endsName '(' = true := rfl
  have hname (c : Char) (hc : endsType c = true) : endsName c = true :=
    (Bool.and_eq_true_iff.1 hc).2
  exact Text.concat_allows hopening hname (List.forall_mem_map.2 fun g _ => groupText_begins g) u hu

/-- The generics go as far as there are braces, and with that the innermost results face each other,
then the groups of parameters. -/
theorem Legible.told {t u : Ty} (ht : t.Legible) (hu : u.Legible) : t.Told u := by
  induction t using spine_induction generalizing u with
  | h t ihItems ihGroups =>
    obtain ⟨hatom, hheads, hgroups⟩ := ht.spine
    obtain ⟨hatom', hheads', hgroups'⟩ := hu.spine
    have hatoms : Separable endsName t.atom.text u.atom.text (t.atom.erase = u.atom.erase) :=
      atom_separable hatom hatom' fun v hv w hw =>
        ihItems v hv (hatom.of_mem_items hv) (hatom'.of_mem_items hw)
    have hparams := groups_separable hgroups hgroups' fun g hg g' hg' v hv w hw =>
      ihGroups g hg v hv ((hgroups g hg).params v hv) ((hgroups' g' hg').params w hw)
    have hbodies := hatoms.append hparams t.groups_allow u.groups_allow
    have hbrace {t : Ty} (h : t.atom.Legible) (rest : List Char) :
        ((t.atom.text ++ Text.concat (t.groups.map groupText)).toList ++ rest).head?.all
          (· != '\x7b') = true :=
      (((atom_begins h).weaken fun c => ne_of_isAtomStart rfl).append _).allows rest
    have hwhole := (heads_separable hheads hheads').append hbodies (fun rest _ => hbrace hatom rest)
      fun rest _ => hbrace hatom' rest
    rw [Told, text_eq_spine, text_eq_spine u, erase_eq_spine, erase_eq_spine u]
    apply hwhole.imp
    intro h
    obtain ⟨-, hatoms, hgroups⟩ := h
    rw [hatoms, hgroups]

theorem Legible.equiv_of_text_eq {t u : Ty} (ht : t.Legible) (hu : u.Legible)
    (h : t.text = u.text) : t.equiv u = true := by
  rw [equiv_iff_erase_eq]
  exact (ht.told hu [] [] rfl rfl (congrArg (·.toList ++ []) h)).1

end Ty

end ExprLang
