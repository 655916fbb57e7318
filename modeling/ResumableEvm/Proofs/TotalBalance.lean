import Mathlib.Data.FinEnum
import ResumableEvm.Proofs.AnchoredOverlay

/-!
# Sums of balances

The balances of a world sum up to a number, and so do those that an overlay says it has.  Writing
one account changes the sum by what its balance changes, so that paying and charging move it by
just the value, as long as no balance stops at its limit.  None does where the sum itself is a
word.

* `World.totalBalance`, `totalBalance` — the sum of all balances.
* `totalBalance_update` — writing one account.
* `totalBalance_credit`, `totalBalance_debit` — paying and charging.
* `payment`, `totalBalance_payment` — what one account pays another is neither created nor lost.
* `Overlay.Anchored.payment_view` — payments between accounts of an overlay.
-/

namespace ResumableEvm

/-- The sum of the balances of a world. -/
def World.totalBalance (w : World) : ℕ :=
  (w.accounts.toList.map fun (_, account) => account.balance.toNat).sum

/-- The sum of the balances that are read at all addresses. -/
def totalBalance (v : Address → AccountView) : ℕ := ∑ a, (v a).balance.toNat

variable {v v' : Address → AccountView} {a b : Address} {value : Word}

/-- Addresses that a world does not list have no balance. -/
lemma World.totalBalance_view (w : World) (rules : AccountRules) :
    ResumableEvm.totalBalance (w.view rules) = w.totalBalance := by
  have hlisted : ∀ p ∈ w.accounts.toList,
      (w.view rules p.1).balance.toNat = p.2.balance.toNat := by
    intro p hp
    have hp' := Std.TreeMap.mem_toList_iff_getElem?_eq_some.mp hp
    simp only [World.view, hp']
    rfl
  have hunlisted : ∀ a ∈ Finset.univ, a ∉ w.accounts.keys.toFinset →
      (w.view rules a).balance.toNat = 0 := by
    intro a _ ha
    have hnone : w.accounts[a]? = none := by
      rw [List.mem_toFinset, Std.TreeMap.mem_keys] at ha
      exact Std.TreeMap.getElem?_eq_none ha
    simp only [World.view, hnone]
    rfl
  calc ∑ a, (w.view rules a).balance.toNat
      = ∑ a ∈ w.accounts.keys.toFinset, (w.view rules a).balance.toNat :=
        (Finset.sum_subset (Finset.subset_univ _) hunlisted).symm
    _ = (w.accounts.keys.map fun a => (w.view rules a).balance.toNat).sum :=
        List.sum_toFinset _ Std.TreeMap.nodup_keys
    _ = w.totalBalance := by
        rw [← Std.TreeMap.map_fst_toList_eq_keys, List.map_map]
        exact congrArg List.sum (List.map_congr_left hlisted)

lemma totalBalance_congr (h : ∀ a, (v' a).balance = (v a).balance) :
    totalBalance v' = totalBalance v :=
  Finset.sum_congr rfl fun a _ => congrArg BitVec.toNat (h a)

/-- No account has more than all of them. -/
lemma balance_le_totalBalance (v : Address → AccountView) (a : Address) :
    (v a).balance.toNat ≤ totalBalance v :=
  Finset.single_le_sum (f := fun a => (v a).balance.toNat) (fun _ _ => Nat.zero_le _)
    (Finset.mem_univ a)

/-- Nor do two accounts. -/
lemma pair_le_totalBalance (v : Address → AccountView) {a b : Address} (hne : a ≠ b) :
    (v a).balance.toNat + (v b).balance.toNat ≤ totalBalance v := by
  rw [← Finset.sum_pair hne (f := fun a => (v a).balance.toNat)]
  exact Finset.sum_le_sum_of_subset (Finset.subset_univ _)

/-- **Writing one account** replaces its balance in the sum. -/
lemma totalBalance_update (v : Address → AccountView) (a : Address) (x : AccountView) :
    totalBalance (Function.update v a x) + (v a).balance.toNat =
      totalBalance v + x.balance.toNat := by
  have hcomp : (fun b => (Function.update v a x b).balance.toNat) =
      Function.update (fun b => (v b).balance.toNat) a x.balance.toNat := by
    funext b
    exact Function.apply_update (fun _ account => account.balance.toNat) v a x b
  have hrest := Finset.add_sum_erase Finset.univ (fun b => (v b).balance.toNat) (Finset.mem_univ a)
  simp only [totalBalance]
  rw [hcomp, Finset.sum_update_of_mem (Finset.mem_univ a), Finset.sdiff_singleton_eq_erase, ← hrest]
  omega

lemma totalBalance_credit_le (v : Address → AccountView) (a : Address) (value : Word) :
    totalBalance (Function.update v a ((v a).credit value)) ≤ totalBalance v + value.toNat := by
  have hsum := totalBalance_update v a ((v a).credit value)
  have hbalance : ((v a).credit value).balance.toNat ≤ (v a).balance.toNat + value.toNat := by
    simp only [AccountView.credit, Word.toNat_addSat]
    omega
  omega

/-- **Paying an account,** where the sum remains a word. -/
lemma totalBalance_credit (h : totalBalance v + value.toNat < 2 ^ 256) :
    totalBalance (Function.update v a ((v a).credit value)) = totalBalance v + value.toNat ∧
      ((v a).credit value).balance.toNat = (v a).balance.toNat + value.toNat := by
  have hsum := totalBalance_update v a ((v a).credit value)
  have hle := balance_le_totalBalance v a
  have hmax : maxWord = 2 ^ 256 - 1 := rfl
  have hbalance : ((v a).credit value).balance.toNat = (v a).balance.toNat + value.toNat := by
    simp only [AccountView.credit, Word.toNat_addSat]
    omega
  omega

/-- **Charging an account** that has enough. -/
lemma totalBalance_debit (h : value.toNat ≤ (v a).balance.toNat) :
    totalBalance (Function.update v a ((v a).debit value)) + value.toNat = totalBalance v := by
  have hsum := totalBalance_update v a ((v a).debit value)
  have hbalance : ((v a).debit value).balance.toNat = (v a).balance.toNat - value.toNat :=
    Word.toNat_subSat _ _
  omega

/-! ## Payments -/

/-- What is read once one account has paid another. -/
def payment (v : Address → AccountView) (payer payee : Address) (value : Word) :
    Address → AccountView :=
  let charged := Function.update v payer ((v payer).debit value)
  Function.update charged payee ((charged payee).credit value)

/-- A payment moves balances, and may bring about the accounts that take part. -/
lemma payment_eq (v : Address → AccountView) (payer payee : Address) (value : Word) (a : Address) :
    ∃ present balance, payment v payer payee value a =
      { v a with present := (v a).present || present, balance := balance } := by
  simp only [payment]
  by_cases hpayee : a = payee
  · subst hpayee
    rw [Function.update_self]
    by_cases hpayer : a = payer
    · subst hpayer
      rw [Function.update_self]
      refine ⟨value ≠ 0 || value ≠ 0, ((v a).balance.subSat value).addSat value, ?_⟩
      simp only [AccountView.credit, AccountView.debit, Bool.or_assoc]
    · rw [Function.update_of_ne hpayer]
      exact ⟨_, _, rfl⟩
  · rw [Function.update_of_ne hpayee]
    by_cases hpayer : a = payer
    · subst hpayer
      rw [Function.update_self]
      exact ⟨_, _, rfl⟩
    · rw [Function.update_of_ne hpayer]
      exact ⟨false, _, by rw [Bool.or_false]⟩

lemma payment_keeps (v : Address → AccountView) (payer payee : Address) (value : Word)
    (a : Address) : (payment v payer payee value a).nonce = (v a).nonce ∧
      (payment v payer payee value a).code = (v a).code ∧
        (payment v payer payee value a).slots = (v a).slots ∧
          ((v a).present = true → (payment v payer payee value a).present = true) := by
  obtain ⟨present, balance, heq⟩ := payment_eq v payer payee value a
  rw [heq]
  exact ⟨rfl, rfl, rfl, fun hp => by simp [hp]⟩

section Covered

variable {payer : Address} (payee : Address) (hcovered : value.toNat ≤ (v payer).balance.toNat)
  (htotal : totalBalance v < 2 ^ 256)

include hcovered htotal

/-- **What one account pays another** is neither created nor lost. -/
lemma totalBalance_payment : totalBalance (payment v payer payee value) = totalBalance v := by
  have hcharged := totalBalance_debit hcovered
  rw [← hcharged] at htotal ⊢
  exact (totalBalance_credit htotal).1

/-- It is taken from the payer and given to the payee, whether or not they are the same. -/
lemma payment_balance (a : Address) :
    (payment v payer payee value a).balance.toNat + (if a = payer then value.toNat else 0) =
      (v a).balance.toNat + (if a = payee then value.toNat else 0) := by
  have hcharged := totalBalance_debit hcovered
  rw [← hcharged] at htotal
  obtain ⟨-, hpaid⟩ := totalBalance_credit (a := payee) htotal
  have hdebit : ((v payer).debit value).balance.toNat = (v payer).balance.toNat - value.toNat :=
    Word.toNat_subSat _ _
  simp only [payment]
  by_cases hpayee : a = payee
  · subst hpayee
    rw [if_pos rfl, Function.update_self, hpaid]
    by_cases hpayer : a = payer
    · subst hpayer
      rw [if_pos rfl, Function.update_self]
      omega
    · rw [if_neg hpayer, Function.update_of_ne hpayer]
      omega
  · rw [if_neg hpayee, Function.update_of_ne hpayee]
    by_cases hpayer : a = payer
    · subst hpayer
      rw [if_pos rfl, Function.update_self]
      omega
    · rw [if_neg hpayer, Function.update_of_ne hpayer]

end Covered

namespace Overlay

variable {log : CommitLog} {w : World} {rules : AccountRules} {s paid moved : Overlay}

/-- Removing an account loses what it had. -/
lemma totalBalance_remove (s : Overlay) (w : World) (a : Address) :
    totalBalance ((s.remove a).view w) + (s.view w a).balance.toNat = totalBalance (s.view w) := by
  rw [s.remove_view w a]
  have hsum := totalBalance_update (s.view w) a (.absent s.rules)
  have hzero : (AccountView.absent s.rules).balance.toNat = 0 := rfl
  omega

/-- **A payment between accounts** of an overlay. -/
lemma Anchored.payment_view (hs : s.Anchored rules log) (ht : log.Tells w) (hpayer : s.Knows a log)
    (hpays : s.decreaseBalance a value log = .ok paid)
    (hmoves : paid.increaseBalance b value log = .ok moved) :
    moved.Anchored rules log ∧ moved.view w = payment (s.view w) a b value := by
  have hcharged := hpayer.decreaseBalance_view ht hpays
  obtain ⟨hanchored, hmoved⟩ := (hs.moveBalance hpayer hpays).increaseBalance ht hmoves
  rw [hcharged] at hmoved
  exact ⟨hanchored, hmoved⟩

end Overlay

end ResumableEvm
