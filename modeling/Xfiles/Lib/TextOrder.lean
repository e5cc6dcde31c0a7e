import Mathlib.Data.List.Lex
import Mathlib.Order.Lattice.Nat
import Mathlib.Algebra.Order.Group.Nat

/-!
# Numbers whose text sorts like they do

`numeral` writes a number with a fixed number of digits.  Such texts stand in
the order of the numbers, and so do texts that begin with them
(`numeral_append_lt`).

`value` reads a number back (`value_numeral`).

`trimmed` writes a list of numbers, each with the same number of digits, and
leaves the zeros at its end out.  Among lists of one length the order is kept
when what follows is below every digit (`trimmed_append_lt`).

The digits are of any ordered type, in any base.
-/

namespace TextOrder

variable {α : Type*}

theorem lt_iff_div_mod (n m k : Nat) :
    n < m ↔ n / k < m / k ∨ n / k = m / k ∧ n % k < m % k := by
  have hn := Nat.div_add_mod n k
  have hm := Nat.div_add_mod m k
  rcases Nat.lt_trichotomy (n / k) (m / k) with hlt | heq | hgt
  · exact iff_of_true (Nat.lt_of_div_lt_div hlt) (Or.inl hlt)
  · rw [heq] at hn ⊢
    omega
  · have hmn : m < n := Nat.lt_of_div_lt_div hgt
    omega

theorem div_lt_base {base width n : Nat} (h : n < base ^ (width + 1)) :
    n / base ^ width < base := by
  rw [Nat.pow_succ] at h
  exact Nat.div_lt_of_lt_mul h

theorem pow_pos_of_lt_succ {base width n : Nat} (h : n < base ^ (width + 1)) :
    0 < base ^ width := by
  apply Nat.pos_of_ne_zero
  intro hzero
  rw [Nat.pow_succ, hzero, Nat.zero_mul] at h
  omega

/-- A number with a fixed number of digits, the most significant one first. -/
def numeral (base : Nat) (digit : Nat → α) : Nat → Nat → List α
  | 0, _ => []
  | width + 1, n => digit (n / base ^ width) :: numeral base digit width (n % base ^ width)

@[simp] theorem length_numeral (base : Nat) (digit : Nat → α) (width n : Nat) :
    (numeral base digit width n).length = width := by
  induction width generalizing n with
  | zero => rfl
  | succ width ih => rw [numeral, List.length_cons, ih]

theorem map_numeral {β : Type*} (f : α → β) (base : Nat) (digit : Nat → α) (width n : Nat) :
    (numeral base digit width n).map f = numeral base (f ∘ digit) width n := by
  induction width generalizing n with
  | zero => rfl
  | succ width ih => rw [numeral, numeral, List.map_cons, ih, Function.comp_apply]

/-- The leading digits of a number, and then the others. -/
theorem numeral_add (base : Nat) (digit : Nat → α) {left right n : Nat}
    (hn : n < base ^ (left + right)) :
    numeral base digit (left + right) n =
      numeral base digit left (n / base ^ right) ++
        numeral base digit right (n % base ^ right) := by
  induction left generalizing n with
  | zero =>
    rw [Nat.zero_add] at hn ⊢
    rw [numeral, List.nil_append, Nat.mod_eq_of_lt hn]
  | succ left ih =>
    have hpos : 0 < base ^ (left + right) := pow_pos_of_lt_succ (Nat.succ_add left right ▸ hn)
    have hdiv : n / base ^ (left + right) = n / base ^ right / base ^ left := by
      rw [Nat.div_div_eq_div_mul, ← Nat.pow_add, Nat.add_comm]
    have hmod : n % base ^ (left + right) / base ^ right = n / base ^ right % base ^ left := by
      rw [Nat.add_comm, Nat.pow_add, Nat.mod_mul_right_div_self]
    have hlow : n % base ^ (left + right) % base ^ right = n % base ^ right :=
      Nat.mod_mod_of_dvd n (Nat.pow_dvd_pow base (Nat.le_add_left right left))
    rw [Nat.succ_add, numeral, numeral, ih (Nat.mod_lt n hpos), hdiv, hmod, hlow,
      List.cons_append]

theorem of_mem_numeral {base : Nat} {digit : Nat → α} {width n : Nat} {a : α}
    (h : a ∈ numeral base digit width n) :
    ∃ i, a = digit i ∧ (n < base ^ width → i < base) := by
  induction width generalizing n with
  | zero => exact absurd h List.not_mem_nil
  | succ width ih =>
    rcases List.mem_cons.mp h with rfl | htail
    · exact ⟨_, rfl, div_lt_base⟩
    · obtain ⟨i, hi, hlt⟩ := ih htail
      exact ⟨i, hi, fun hn => hlt (Nat.mod_lt n (pow_pos_of_lt_succ hn))⟩

/-- The number that digits stand for, after the ones already read. -/
def value (base : Nat) (digitValue : α → Nat) : Nat → List α → Nat
  | n, [] => n
  | n, a :: rest => value base digitValue (base * n + digitValue a) rest

theorem value_numeral {base : Nat} {digit : Nat → α} {digitValue : α → Nat}
    (hdigit : ∀ i < base, digitValue (digit i) = i) {width n : Nat} (hn : n < base ^ width)
    (before : Nat) :
    value base digitValue before (numeral base digit width n) = base ^ width * before + n := by
  induction width generalizing n before with
  | zero =>
    rw [Nat.pow_zero] at hn ⊢
    show before = _
    omega
  | succ width ih =>
    have hmod := Nat.mod_lt n (pow_pos_of_lt_succ hn)
    rw [numeral, value, hdigit _ (div_lt_base hn), ih hmod, Nat.mul_add, ← Nat.mul_assoc,
      ← Nat.pow_succ, Nat.add_assoc, Nat.div_add_mod]

section Order

variable [LinearOrder α] {base : Nat} {digit : Nat → α}

/-- The digits of a base stand in their order. -/
def OrderedDigits (base : Nat) (digit : Nat → α) : Prop :=
  ∀ i < base, ∀ j < base, i < j → digit i < digit j

theorem OrderedDigits.lt_iff (hdigit : OrderedDigits base digit) {i j : Nat} (hi : i < base)
    (hj : j < base) : digit i < digit j ↔ i < j := by
  refine ⟨?_, hdigit i hi j hj⟩
  intro hlt
  rcases Nat.lt_trichotomy i j with h | rfl | h
  · exact h
  · exact absurd hlt (lt_irrefl _)
  · exact absurd hlt (lt_asymm (hdigit j hj i hi h))

theorem OrderedDigits.eq_iff (hdigit : OrderedDigits base digit) {i j : Nat} (hi : i < base)
    (hj : j < base) : digit i = digit j ↔ i = j := by
  refine ⟨?_, congrArg digit⟩
  intro heq
  rcases Nat.lt_trichotomy i j with h | h | h
  · exact absurd heq (hdigit i hi j hj h).ne
  · exact h
  · exact absurd heq (hdigit j hj i hi h).ne'

/-- Texts that begin with numbers of one width. -/
theorem numeral_append_lt (hdigit : OrderedDigits base digit) {width n m : Nat}
    (hn : n < base ^ width) (hm : m < base ^ width) (s t : List α) :
    numeral base digit width n ++ s < numeral base digit width m ++ t ↔
      n < m ∨ n = m ∧ s < t := by
  induction width generalizing n m with
  | zero =>
    rw [Nat.pow_zero] at hn hm
    have hzero : n = m := by omega
    simp [numeral, hzero]
  | succ width ih =>
    have hpos := pow_pos_of_lt_succ hn
    have hdivmod : n = m ↔
        n / base ^ width = m / base ^ width ∧ n % base ^ width = m % base ^ width := by
      refine ⟨fun h => ⟨h ▸ rfl, h ▸ rfl⟩, ?_⟩
      rintro ⟨hdiv, hmod⟩
      rw [← Nat.div_add_mod n (base ^ width), hdiv, hmod, Nat.div_add_mod]
    rw [numeral, numeral, List.cons_append, List.cons_append, List.cons_lt_cons_iff,
      hdigit.lt_iff (div_lt_base hn) (div_lt_base hm),
      hdigit.eq_iff (div_lt_base hn) (div_lt_base hm), ih (Nat.mod_lt n hpos) (Nat.mod_lt m hpos),
      lt_iff_div_mod n m (base ^ width), hdivmod]
    tauto

/-! ## Trimmed lists -/

/-- The numbers in turn, up to the last one that is not zero. -/
def trimmed (write : Nat → List α) : List Nat → List α
  | [] => []
  | n :: rest => if ∀ m ∈ n :: rest, m = 0 then [] else write n ++ trimmed write rest

theorem zeros_lt {ns ms : List Nat} (hlength : ns.length = ms.length) (hns : ∀ n ∈ ns, n = 0)
    (hms : ¬∀ m ∈ ms, m = 0) : ns < ms := by
  induction ns generalizing ms with
  | nil =>
    rw [List.length_nil, eq_comm, List.length_eq_zero_iff] at hlength
    exact absurd (by simp [hlength]) hms
  | cons n ns ih =>
    cases ms with
    | nil => simp at hlength
    | cons m ms =>
      have hn : n = 0 := hns n List.mem_cons_self
      rw [List.cons_lt_cons_iff, hn]
      rcases Nat.eq_zero_or_pos m with rfl | hpos
      · refine Or.inr ⟨rfl, ih (by simpa using hlength) ?_ ?_⟩
        · exact fun k hk => hns k (List.mem_cons_of_mem _ hk)
        · intro hzeros
          apply hms
          rintro k (_ | ⟨_, hk⟩)
          · rfl
          · exact hzeros k hk
      · exact Or.inl hpos

theorem eq_of_zeros {ns ms : List Nat} (hlength : ns.length = ms.length) (hns : ∀ n ∈ ns, n = 0)
    (hms : ∀ m ∈ ms, m = 0) : ns = ms := by
  rw [List.eq_replicate_of_mem hns, List.eq_replicate_of_mem hms, hlength]

/-- Trimmed texts stand in the order of the lists, when what follows them is
below every digit. -/
theorem trimmed_append_lt (hdigit : OrderedDigits base digit) {width : Nat} (hwidth : 0 < width)
    {stop : α} (hstop : ∀ i < base, stop < digit i) (s : List α) {ns ms : List Nat}
    (hlength : ns.length = ms.length) (hns : ∀ n ∈ ns, n < base ^ width)
    (hms : ∀ m ∈ ms, m < base ^ width) :
    trimmed (numeral base digit width) ns ++ stop :: s <
      trimmed (numeral base digit width) ms ++ stop :: s ↔ ns < ms := by
  -- A digit that begins a number stands above what ends the text.
  have hhead : ∀ n < base ^ width, ∀ t,
      stop :: s < numeral base digit width n ++ t ∧
        ¬numeral base digit width n ++ t < stop :: s := by
    intro n hn t
    obtain ⟨w, rfl⟩ : ∃ w, width = w + 1 := ⟨width - 1, by omega⟩
    have hlt := hstop _ (div_lt_base hn)
    rw [numeral, List.cons_append, List.cons_lt_cons_iff, List.cons_lt_cons_iff]
    refine ⟨Or.inl hlt, ?_⟩
    rintro (h | ⟨h, -⟩)
    · exact lt_asymm h hlt
    · exact absurd h hlt.ne'
  induction ns generalizing ms with
  | nil =>
    rw [List.length_nil, eq_comm, List.length_eq_zero_iff] at hlength
    subst hlength
    simp [trimmed]
  | cons n ns ih =>
    cases ms with
    | nil => simp at hlength
    | cons m ms =>
      have hn := hns n List.mem_cons_self
      have hm := hms m List.mem_cons_self
      have hrest : trimmed (numeral base digit width) ns ++ stop :: s <
          trimmed (numeral base digit width) ms ++ stop :: s ↔ ns < ms :=
        ih (Nat.succ.inj hlength) (fun k hk => hns k (List.mem_cons_of_mem _ hk))
          (fun k hk => hms k (List.mem_cons_of_mem _ hk))
      by_cases hzn : ∀ k ∈ n :: ns, k = 0 <;> by_cases hzm : ∀ k ∈ m :: ms, k = 0
      · rw [eq_of_zeros hlength hzn hzm]
        exact iff_of_false (lt_irrefl _) (lt_irrefl _)
      · rw [trimmed, trimmed, if_pos hzn, if_neg hzm, List.nil_append, List.append_assoc]
        exact iff_of_true (hhead m hm _).1 (zeros_lt hlength hzn hzm)
      · rw [trimmed, trimmed, if_neg hzn, if_pos hzm, List.nil_append, List.append_assoc]
        exact iff_of_false (hhead n hn _).2 (lt_asymm (zeros_lt hlength.symm hzm hzn))
      · rw [trimmed, trimmed, if_neg hzn, if_neg hzm, List.append_assoc, List.append_assoc,
          numeral_append_lt hdigit hn hm, List.cons_lt_cons_iff, hrest]

end Order

end TextOrder
