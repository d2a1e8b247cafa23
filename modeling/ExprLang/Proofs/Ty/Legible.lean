import ExprLang.Proofs.Parsing.Spelling
import ExprLang.Proofs.Ty.Free
import ExprLang.Proofs.Ty.Termination

namespace ExprLang

open Lexeme

def IsPrimedWord (name : String) : Prop :=
  ∃ c cs n, name.toList = c :: (cs ++ List.replicate n '\'') ∧ isWordStart c = true ∧
    ∀ d ∈ cs, isWordPart d = true

namespace IsPrimedWord

variable {name primed : String}

theorem prime (h : IsPrimedWord name) : IsPrimedWord (name ++ "'") := by
  obtain ⟨c, cs, n, hname, hc, hcs⟩ := h
  have hprime : "'".toList = ['\''] := rfl
  have hprimes : name.toList ++ "'".toList = c :: (cs ++ List.replicate (n + 1) '\'') := by
    rw [hname, hprime, List.replicate_succ', List.cons_append, List.append_assoc]
  exact ⟨c, cs, n + 1, by rw [String.toList_append, hprimes], hc, hcs⟩

theorem of_primed (h : IsPrimedWord name) (hprimed : Primed name primed) :
    IsPrimedWord primed := by
  induction hprimed with
  | once => exact h.prime
  | more _ ih => exact ih.prime

end IsPrimedWord

theorem Primed.prime_mem {name primed : String} (h : Primed name primed) :
    '\'' ∈ primed.toList := by
  have hprime : "'".toList = ['\''] := rfl
  cases h with
  | once =>
    rw [String.toList_append, hprime]
    exact List.mem_append_right _ List.mem_cons_self
  | more =>
    rw [String.toList_append, hprime]
    exact List.mem_append_right _ List.mem_cons_self

theorem IsName.isPrimedWord {name : String} (h : IsName name) : IsPrimedWord name := by
  obtain ⟨c, cs, hname, hc, hcs⟩ := h.spelling
  exact ⟨c, cs, 0, by rw [hname, List.replicate_zero, List.append_nil], hc, hcs⟩

namespace Ty

mutual

/-- Every function type names each of its parameters, every name is a word with or without primes,
and no reference to a generic reads as a basic type. -/
def Legible : Ty → Prop
  | bool | int => True
  | list t => t.Legible
  | tuple ts => AllLegible ts
  | fn ret params names generics =>
    names.length = params.length ∧ (∀ name ∈ names, IsPrimedWord name) ∧
      (∀ g ∈ generics, IsPrimedWord g) ∧ ret.Legible ∧ AllLegible params
  | generic a => IsPrimedWord a ∧ a ≠ "Int" ∧ a ≠ "Bool"

def AllLegible : List Ty → Prop
  | [] => True
  | t :: ts => t.Legible ∧ AllLegible ts

end

theorem allLegible_iff {ts : List Ty} : AllLegible ts ↔ ∀ t ∈ ts, t.Legible := by
  induction ts with
  | nil => simp [AllLegible]
  | cons t ts ih => rw [AllLegible, ih, List.forall_mem_cons]

end Ty

namespace Substitution

variable {s : Substitution}

/-- A new name has a prime, so it is not that of a basic type. -/
theorem Finds.legible {within : Ty} {g fresh : String} (h : s.Finds within (g ++ "'") fresh)
    (hg : IsPrimedWord g) : (Ty.generic fresh).Legible := by
  have hprimed : Primed g fresh := by
    rw [finds_iff.1 h]
    exact s.freshName_primed g within
  have hne {word : String} (hword : '\'' ∉ word.toList) : fresh ≠ word := by
    rintro rfl
    exact hword hprimed.prime_mem
  exact ⟨hg.of_primed hprimed, hne (by decide), hne (by decide)⟩

theorem Applies.legible {t u : Ty} (h : s.Applies t u) (hs : ∀ e ∈ s.entries, e.2.Legible)
    (ht : t.Legible) : u.Legible := by
  induction h using Applies.rec
      (motive_2 := fun s ts us _ => (∀ e ∈ s.entries, e.2.Legible) → Ty.AllLegible ts →
        us.length = ts.length ∧ Ty.AllLegible us)
      (motive_3 := fun s within gs ret params kept ret' params' _ =>
        (∀ g ∈ gs, IsPrimedWord g) → ret.Legible → Ty.AllLegible params →
          (∀ g ∈ kept, IsPrimedWord g) ∧ ret'.Legible ∧ params'.length = params.length ∧
            Ty.AllLegible params') with
  | bool => trivial
  | int => trivial
  | replaced h => exact hs _ (mem_of_lookup h)
  | kept _ => exact ht
  | list _ ih => exact ih hs ht
  | tuple _ ih => exact (ih hs ht).2
  | fn _ _ _ ihFreshens ihRet ihParams =>
    obtain ⟨hlength, hnames, hgenerics, hret, hparams⟩ := ht
    obtain ⟨hkept, hret, hlength₁, hparams⟩ := ihFreshens hgenerics hret hparams
    obtain ⟨hlength₂, hparams⟩ := ihParams hs hparams
    have hlengths := (hlength.trans hlength₁.symm).trans hlength₂.symm
    exact ⟨hlengths, hnames, hkept, ihRet hs hret, hparams⟩
  | nil => exact ⟨rfl, trivial⟩
  | cons _ _ ih ihs hs hts =>
    obtain ⟨hlength, hus⟩ := ihs hs hts.2
    exact ⟨congrArg Nat.succ hlength, ih hs hts.1, hus⟩
  | done _ hret hparams => exact ⟨List.forall_mem_nil _, hret, rfl, hparams⟩
  | drop _ _ ih hgs hret hparams => exact ih (List.forall_mem_cons.1 hgs).2 hret hparams
  | keep _ _ _ ih hgs hret hparams =>
    obtain ⟨hg, hgs⟩ := List.forall_mem_cons.1 hgs
    obtain ⟨hkept, hrest⟩ := ih hgs hret hparams
    exact ⟨List.forall_mem_cons.2 ⟨hg, hkept⟩, hrest⟩
  | rename _ _ hfinds _ _ _ ihRet ihParams ih hgs hret hparams =>
    obtain ⟨hg, hgs⟩ := List.forall_mem_cons.1 hgs
    have hfresh := hfinds.legible hg
    obtain ⟨hlength, hparams⟩ := ihParams (List.forall_mem_singleton.2 hfresh) hparams
    have hret := ihRet (List.forall_mem_singleton.2 hfresh) hret
    obtain ⟨hkept, hret, hlength', hparams⟩ := ih hgs hret hparams
    exact ⟨List.forall_mem_cons.2 ⟨hfresh.1, hkept⟩, hret, hlength'.trans hlength, hparams⟩

theorem apply_legible {t : Ty} (hs : ∀ e ∈ s.entries, e.2.Legible) (ht : t.Legible) :
    (s.apply t).Legible :=
  (applies_apply s t).legible hs ht

end Substitution

end ExprLang
