import Provision.Json.Lexer
import Provision.Json.Printer
import Provision.Proofs.Numerals
import Mathlib.Data.List.TakeWhile

/-!
# Written numbers

The numeral of a number is made of the characters of numerals and begins like one, so a reader takes
it for a number, whatever it then makes of it. A whole number that fits sixty-four bits, with a sign
or without, reads as what it was (`spelt_ofInt_iff`).
-/

namespace Provision

namespace Numeral

/-- Only zero begins with a zero. -/
theorem eq_zero_of_head_digits {n : Nat} (h : (digits n).head? = some '0') : n = 0 := by
  fun_induction digits n with
  | case1 n hn =>
    have hd : digit n = '0' := Option.some.inj h
    rw [← digitValue_digit hn, hd]
    rfl
  | case2 n hn ih =>
    rcases hd : digits (n / 10) with _ | ⟨d, ds⟩
    · exact absurd hd digits_ne_nil
    · rw [hd] at h ih
      have hzero := ih h
      omega

theorem toList_ofNat (n : Nat) : (ofNat n).toList = digits n := String.toList_ofList

end Numeral

namespace Json

/-- What a run of characters means that is taken for a number. -/
def spelt (cs : List Char) : Option Scalar := (Numeral.Parts.ofChars cs).bind Numeral.Parts.meaning

/-- The characters are such as numbers are made of, and the first one is such as numbers begin
with. -/
structure Numerical (cs : List Char) : Prop where
  all : ∀ c ∈ cs, isNumeral c = true
  head : ∃ c ∈ cs.head?, (c.isDigit || c == '-') = true

theorem isNumeral_of_isDigit {c : Char} (h : c.isDigit = true) : isNumeral c = true := by
  simp [isNumeral, h]

theorem numerical_append {ds : List Char} (cs : List Char) (hne : ds ≠ [])
    (hd : ∀ c ∈ ds, c.isDigit = true) (hc : ∀ c ∈ cs, isNumeral c = true) :
    Numerical (ds ++ cs) := by
  obtain ⟨d, ds, rfl⟩ := List.exists_cons_of_ne_nil hne
  refine ⟨fun c h => ?_, d, rfl, by simp [hd d List.mem_cons_self]⟩
  rcases List.mem_append.1 h with h | h
  · exact isNumeral_of_isDigit (hd c h)
  · exact hc c h

theorem numerical_cons {d : Char} {cs : List Char} (hd : d.isDigit = true)
    (hc : ∀ c ∈ cs, isNumeral c = true) : Numerical (d :: cs) :=
  numerical_append cs (List.cons_ne_nil d []) (fun _ h => List.mem_singleton.1 h ▸ hd) hc

theorem Numerical.negative {cs : List Char} (h : Numerical cs) : Numerical ('-' :: cs) :=
  ⟨List.forall_mem_cons.2 ⟨rfl, h.all⟩, '-', rfl, rfl⟩

/-! ## Whole numbers -/

theorem numerical_digits (n : Nat) : Numerical (Provision.Numeral.digits n) := by
  have h := numerical_append [] Provision.Numeral.digits_ne_nil
    (fun c => Provision.Numeral.isDigit_of_mem_digits (n := n)) (by simp)
  rwa [List.append_nil] at h

theorem numerical_ofInt (i : Int) : Numerical (Provision.Numeral.ofInt i).toList := by
  unfold Provision.Numeral.ofInt
  split
  · rw [String.toList_append, Provision.Numeral.toList_ofNat]
    exact (numerical_digits _).negative
  · rw [Provision.Numeral.toList_ofNat]
    exact numerical_digits _

theorem ofChars_digits (n : Nat) : Numeral.Parts.ofChars (Provision.Numeral.digits n)
      = some ⟨false, Provision.Numeral.digits n, none, none⟩
    ∧ Numeral.Parts.ofChars ('-' :: Provision.Numeral.digits n)
      = some ⟨true, Provision.Numeral.digits n, none, none⟩ := by
  have hdigit : ∀ c ∈ Provision.Numeral.digits n, c.isDigit = true :=
    fun c => Provision.Numeral.isDigit_of_mem_digits
  have htake : (Provision.Numeral.digits n).takeWhile Char.isDigit = Provision.Numeral.digits n :=
    List.takeWhile_eq_self_iff.2 hdigit
  have hdrop : (Provision.Numeral.digits n).dropWhile Char.isDigit = [] :=
    List.dropWhile_eq_nil_iff.2 hdigit
  have hzero : ((Provision.Numeral.digits n).isEmpty
      || ((Provision.Numeral.digits n).head? == some '0'
        && decide (1 < (Provision.Numeral.digits n).length))) = false := by
    by_cases hhead : (Provision.Numeral.digits n).head? = some '0'
    · rw [Provision.Numeral.eq_zero_of_head_digits hhead, Provision.Numeral.digits,
        if_pos (by decide)]
      rfl
    · simp [hhead, Provision.Numeral.digits_ne_nil]
  have hsign : ∀ cs, Provision.Numeral.digits n ≠ '-' :: cs := fun cs h => by
    have := hdigit '-' (h ▸ List.mem_cons_self)
    simp at this
  constructor
  · unfold Numeral.Parts.ofChars
    dsimp only
    split
    · rename_i cs h
      exact absurd h (hsign cs)
    · simp only [htake, hdrop, hzero]
      rfl
  · unfold Numeral.Parts.ofChars
    simp only [htake, hdrop, hzero]
    rfl

theorem meaning_digits {n : Nat} {negative : Bool} {i : Int} :
    Numeral.Parts.meaning ⟨negative, Provision.Numeral.digits n, none, none⟩ = some (.int i) ↔
      if negative then i = -n ∧ 0 < n ∧ n ≤ Nat.pow 2 63 else i = n ∧ n < Nat.pow 2 64 := by
  have hfloat : ∀ x : Option Binary64, x.map Scalar.float ≠ some (.int i) := fun x => by
    rcases x with _ | x <;> simp
  unfold Numeral.Parts.meaning
  simp only [Provision.Numeral.value_digits]
  rcases negative with _ | _
  · simp only [Bool.false_eq_true, if_false]
    by_cases hn : n < Nat.pow 2 64
    · rw [if_pos hn]
      exact ⟨fun h => ⟨(Scalar.int.inj (Option.some.inj h)).symm, hn⟩, fun h => by rw [h.1]⟩
    · rw [if_neg hn]
      exact ⟨fun h => absurd h (hfloat _), fun h => absurd h.2 hn⟩
  · simp only [if_true]
    by_cases hzero : n = 0
    · rw [if_pos hzero]
      exact ⟨nofun, fun h => absurd hzero (Nat.pos_iff_ne_zero.1 h.2.1)⟩
    · rw [if_neg hzero]
      by_cases hn : n ≤ Nat.pow 2 63
      · rw [if_pos hn]
        exact ⟨fun h => ⟨(Scalar.int.inj (Option.some.inj h)).symm, Nat.pos_of_ne_zero hzero, hn⟩,
          fun h => by rw [h.1]⟩
      · rw [if_neg hn]
        exact ⟨fun h => absurd h (hfloat _), fun h => absurd h.2.2 hn⟩

/-- A whole number reads as what it was exactly if it fits sixty-four bits, with a sign or
without. -/
theorem spelt_ofInt_iff {i : Int} : spelt (Provision.Numeral.ofInt i).toList = some (.int i) ↔
    Binary64.int64Min ≤ i ∧ i < Nat.pow 2 64 := by
  unfold Provision.Numeral.ofInt spelt Binary64.int64Min
  split
  · rw [String.toList_append, Provision.Numeral.toList_ofNat]
    change (Numeral.Parts.ofChars ('-' :: Provision.Numeral.digits _)).bind _ = _ ↔ _
    rw [(ofChars_digits _).2, Option.bind_some, meaning_digits, if_pos rfl]
    simp only [Nat.pow_eq]
    omega
  · rw [Provision.Numeral.toList_ofNat, (ofChars_digits _).1, Option.bind_some, meaning_digits,
      if_neg (by decide)]
    simp only [Nat.pow_eq]
    omega

/-! ## Floating point numbers -/

theorem isDigit_of_mem_decimal {n : Nat} {place : Int} {c : Char}
    (h : c ∈ (Decimal.ofNat n place).digits) : c.isDigit = true := by
  unfold Decimal.ofNat at h
  rw [List.mem_reverse] at h
  exact Provision.Numeral.isDigit_of_mem_digits
    (List.mem_reverse.1 ((List.dropWhile_sublist _).subset h))

theorem shortest_eq_ofNat (m : Nat) (e : Int) :
    ∃ n place, Binary64.shortest m e = Decimal.ofNat n place := by
  unfold Binary64.shortest
  extract_lets i top hit
  rcases hhit : hit with _ | x
  · rcases e with k | k
    · exact ⟨_, _, rfl⟩
    · exact ⟨_, _, rfl⟩
  · obtain ⟨k, -, hk⟩ := List.exists_of_findSome?_eq_some hhit
    obtain ⟨c, -, rfl⟩ := Option.map_eq_some_iff.1 hk
    exact ⟨_, _, rfl⟩

theorem isDigit_of_mem_zeros {k : Nat} {c : Char} (h : c ∈ List.replicate k '0') :
    c.isDigit = true := by
  rw [List.eq_of_mem_replicate h]
  rfl

theorem isNumeral_of_mem_point {cs : List Char} (h : ∀ c ∈ cs, c.isDigit = true) :
    ∀ c ∈ '.' :: cs, isNumeral c = true :=
  List.forall_mem_cons.2 ⟨rfl, fun c hc => isNumeral_of_isDigit (h c hc)⟩

theorem isNumeral_of_mem_exponent {sign : String} (h : ∀ c ∈ sign.toList, isNumeral c = true)
    (n : Nat) : ∀ c ∈ "e".toList ++ (sign.toList ++ Provision.Numeral.digits n),
      isNumeral c = true := by
  intro c hc
  rcases List.mem_append.1 hc with hc | hc
  · rw [List.mem_singleton.1 hc]
    rfl
  · rcases List.mem_append.1 hc with hc | hc
    · exact h c hc
    · exact isNumeral_of_isDigit (Provision.Numeral.isDigit_of_mem_digits hc)

theorem numerical_write {x : Decimal} (hx : ∀ c ∈ x.digits, c.isDigit = true) :
    Numerical (layout.write x).toList := by
  have hlead : "0.".toList = ['0', '.'] := rfl
  unfold Binary64.Layout.write
  split
  · split
    · simp only [String.toList_append, String.toList_ofList, hlead, List.cons_append,
        List.nil_append]
      exact numerical_cons rfl (isNumeral_of_mem_point (List.forall_mem_append.2
        ⟨fun c => isDigit_of_mem_zeros, hx⟩))
    · simp only [String.toList_append, String.toList_ofList, hlead]
      exact numerical_cons rfl (isNumeral_of_mem_point hx)
    · rename_i p hp _
      have hpos : 0 < p := Nat.pos_of_ne_zero hp
      split
      · rename_i hlen
        simp only [String.toList_append, String.toList_ofList]
        refine numerical_append ('.' :: List.replicate 1 '0') ?_
          (List.forall_mem_append.2 ⟨hx, fun c => isDigit_of_mem_zeros⟩)
          (isNumeral_of_mem_point fun c => isDigit_of_mem_zeros)
        intro h
        have hlength := congrArg List.length h
        rw [List.length_append, List.length_replicate, List.length_nil] at hlength
        omega
      · rename_i hlen
        rw [String.toList_ofList]
        refine numerical_append _ ?_ (fun c hc => hx c (List.mem_of_mem_take hc))
          (isNumeral_of_mem_point fun c hc => hx c (List.mem_of_mem_drop hc))
        intro h
        have hlength := congrArg List.length h
        rw [List.length_take, List.length_nil] at hlength
        omega
  · extract_lets e sign mantissa
    simp only [String.toList_append, String.toList_ofList, List.append_assoc]
    have hsign : ∀ c ∈ sign.toList, isNumeral c = true := by
      unfold sign
      split
      · exact fun c hc => List.mem_singleton.1 hc ▸ rfl
      · exact fun c hc => List.mem_singleton.1 hc ▸ rfl
    have hexponent := isNumeral_of_mem_exponent hsign e.natAbs
    unfold mantissa
    split
    · exact numerical_cons rfl hexponent
    · rename_i d hd
      rw [Char.toString, String.toList_singleton]
      exact numerical_cons (hx d (hd ▸ List.mem_cons_self)) hexponent
    · rename_i d ds _ hd
      rw [hd] at hx
      rw [String.toList_ofList]
      have hpoint := isNumeral_of_mem_point (List.forall_mem_cons.1 hx).2
      exact numerical_cons (hx d List.mem_cons_self)
        (List.forall_mem_append.2 ⟨hpoint, hexponent⟩)

/-- A finite number is written like a number. -/
theorem numerical_float {x : Binary64} (h : x.isFinite = true) :
    Numerical (float x).toList := by
  rcases x with ⟨negative, m, e, hm⟩ | _ | _
  · have hsize :
        Numerical (if m = 0 then "0.0" else layout.write (Binary64.shortest m e)).toList := by
      split
      · exact numerical_cons rfl (isNumeral_of_mem_point fun c => isDigit_of_mem_zeros (k := 1))
      · obtain ⟨n, place, heq⟩ := shortest_eq_ofNat m e
        rw [heq]
        exact numerical_write fun c => isDigit_of_mem_decimal
    unfold float Binary64.Layout.text
    dsimp only
    split
    · rw [String.toList_append]
      exact hsize.negative
    · exact hsize
  · cases h
  · cases h

end Json

end Provision
