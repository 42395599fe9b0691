-- The order of `cmp_values` in `value.rs`, by which the batch resequencer sorts, and of `SortKey`
-- in `sort.rs`. Both are total preorders. Strings come last, after arrays and objects, and whole
-- numbers that round to the same `f64` are alike.
import Mathlib.Algebra.Order.Field.Rat
import Mathlib.Algebra.Order.Ring.Cast
import Mathlib.Data.Prod.Lex
import RustCamel.Api.Exchange
import RustCamel.Lib.Fallible
import RustCamel.Lib.Significand
import RustCamel.Processor.BatchResequencer

namespace camel_processor.sort

open List
open camel_api (Body Exchange Number Value)
open camel_api.error (CamelError)
open camel_processor.resequencer.batch
open Fallible (bind_eq_ok)
open Significand (roundInt roundInt_mono)

/-! ## Numbers -/

/-- A double, with one zero: the two of them compare as equal. -/
inductive F64 where
  | finite (q : ℚ)
  | infinite (negative : Bool)
  | nan

namespace F64

def of_bits (bits : UInt64) : F64 :=
  let negative := decide (2 ^ 63 ≤ bits.toNat)
  let exponent : Nat := bits.toNat / 2 ^ 52 % 2 ^ 11
  let fraction : Nat := bits.toNat % 2 ^ 52
  if exponent = 2 ^ 11 - 1 then (if fraction = 0 then .infinite negative else .nan)
  else
    let magnitude : ℚ :=
      if exponent = 0 then fraction / 2 ^ 1074
      else (2 ^ 52 + fraction) * 2 ^ exponent / 2 ^ 1075
    .finite (if negative then -magnitude else magnitude)

/-- `n as f64`. -/
def of_int (n : Int) : F64 := .finite (roundInt 53 n)

def is_nan : F64 → Bool
  | .nan => true
  | _ => false

def partial_cmp : F64 → F64 → Option Ordering
  | .nan, _ => none
  | _, .nan => none
  | .finite a, .finite b => some (compare a b)
  | .infinite a, .infinite b => some (compare b a)
  | .infinite negative, .finite _ => some (if negative then .lt else .gt)
  | .finite _, .infinite negative => some (if negative then .gt else .lt)

end F64

/-- The whole number that a number is, when it is kept as one. -/
def as_int : Number → Option Int
  | .PosInt n => some n.toNat
  | .NegInt n => some n.toInt
  | .Float _ => none

def as_f64 : Number → F64
  | .PosInt n => .of_int n.toNat
  | .NegInt n => .of_int n.toInt
  | .Float bits => .of_bits bits

/-- The arm of `cmp_values` for two numbers. -/
def cmp_numbers (a b : Number) : Ordering :=
  ((as_f64 a).partial_cmp (as_f64 b)).getD (compare (as_f64 a).is_nan (as_f64 b).is_nan)

/-! ## The sort of `sort.rs` -/

def sort_key_cmp : Value → Value → Ordering
  | .Null, .Null => .eq
  | .Null, _ => .lt
  | _, .Null => .gt
  | .Bool a, .Bool b => compare a b
  | .Bool _, .Number _ | .Bool _, .String _ => .lt
  | .Number _, .Bool _ | .String _, .Bool _ => .gt
  | .Number a, .Number b => cmp_numbers a b
  | .Number _, .String _ => .lt
  | .String _, .Number _ => .gt
  | .String a, .String b => compare a b
  | _, _ => .eq

/-- The key of an element. What a language gives is checked. -/
inductive SortKeySource where
  | Sync (f : Value → Except CamelError Value)
  | Async (f : Value → Except CamelError Value)

def is_scalar : Value → Bool
  | .Array _ | .Object _ => false
  | _ => true

def SortKeySource.key (source : SortKeySource) (value : Value) : Except CamelError Value :=
  match source with
  | .Sync f => f value
  | .Async f =>
    match f value with
    | .error e => .error e
    | .ok evaluated =>
      if is_scalar evaluated then .ok evaluated
      else .error (.ProcessorError ("sort expression returned a non-scalar value " ++
        "(array/object); expected null/bool/number/string"))

def SortService.call (expression : SortKeySource) (reverse : Bool) (exchange : Exchange) :
    Except CamelError Exchange :=
  match exchange.input.body with
  | .Json (.Array array) => do
    let indexed ← array.mapM fun element => do
      let key ← expression.key element
      .ok (key, element)
    let sorted := indexed.mergeSort fun a b =>
      (if reverse then sort_key_cmp b.1 a.1 else sort_key_cmp a.1 b.1) != .gt
    .ok { exchange with
      input := { exchange.input with body := .Json (.Array (sorted.map (·.2))) } }
  | _ => .error (.ProcessorError "sort requires an array body (Body::Json(Value::Array))")

/-! ## A key in a linear order -/

/-- Where a number stands among all doubles. -/
def F64.place : F64 → ℕ ×ₗ ℚ
  | .infinite true => toLex (0, 0)
  | .finite q => toLex (1, q)
  | .infinite false => toLex (2, 0)
  | .nan => toLex (3, 0)

/-- The place of a type in the order that the arms of `cmp_values` make. -/
def rank : Value → Nat
  | .Null => 0
  | .Bool _ => 1
  | .Number _ => 2
  | .Array _ => 3
  | .Object _ => 4
  | .String _ => 5

def number_part : Value → ℕ ×ₗ ℚ
  | .Bool b => toLex (b.toNat, 0)
  | .Number n => (as_f64 n).place
  | _ => toLex (0, 0)

def text_part (json : Value → String) : Value → String
  | .String s => s
  | .Array items => json (.Array items)
  | .Object entries => json (.Object entries)
  | _ => ""

def sort_key (json : Value → String) (v : Value) : ℕ ×ₗ (ℕ ×ₗ ℚ) ×ₗ String :=
  toLex (rank v, toLex (number_part v, text_part json v))

theorem compare_toLex {α β : Type} [Ord α] [Ord β] (a a' : α) (b b' : β) :
    compare (toLex (a, b)) (toLex (a', b')) = (compare a a').then (compare b b') := rfl

theorem cmp_numbers_eq (a b : Number) :
    cmp_numbers a b = compare (as_f64 a).place (as_f64 b).place := by
  unfold cmp_numbers
  generalize as_f64 a = x
  generalize as_f64 b = y
  cases x with
  | finite q =>
    cases y with
    | finite q' | nan => rfl
    | infinite negative => cases negative <;> rfl
  | infinite negative =>
    cases y with
    | finite q' | nan => cases negative <;> rfl
    | infinite negative' => cases negative <;> cases negative' <;> rfl
  | nan =>
    cases y with
    | finite q' | nan => rfl
    | infinite negative' => cases negative' <;> rfl

theorem cmp_values_eq (json : Value → String) (a b : Value) :
    cmp_values cmp_numbers json a b = compare (sort_key json a) (sort_key json b) := by
  unfold sort_key
  rw [compare_toLex, compare_toLex]
  cases a with
  | Bool p =>
    cases b with
    | Bool q => cases p <;> cases q <;> rfl
    | _ => rfl
  | Number m =>
    cases b with
    | Number n => simp [cmp_values, cmp_numbers_eq, rank, number_part, text_part]
    | _ => rfl
  | _ => cases b <;> rfl

/-! ## A total preorder -/

variable {a b : Value} {expression : SortKeySource}

section

variable (json : Value → String)

theorem cmp_values_self (a : Value) : cmp_values cmp_numbers json a a = .eq := by
  rw [cmp_values_eq]
  exact Std.ReflCmp.compare_self

theorem cmp_values_swap (a b : Value) :
    cmp_values cmp_numbers json b a = (cmp_values cmp_numbers json a b).swap := by
  rw [cmp_values_eq, cmp_values_eq]
  exact Std.OrientedCmp.eq_swap

theorem cmp_values_ne_gt :
    cmp_values cmp_numbers json a b ≠ .gt ↔ sort_key json a ≤ sort_key json b := by
  rw [cmp_values_eq, Ne, compare_gt_iff_gt, not_lt]

theorem cmp_values_trans {c : Value} (hab : cmp_values cmp_numbers json a b ≠ .gt)
    (hb : cmp_values cmp_numbers json b c ≠ .gt) : cmp_values cmp_numbers json a c ≠ .gt := by
  rw [cmp_values_ne_gt] at hab hb ⊢
  exact hab.trans hb

/-- The comparison of a sort, which may be the reversed one. -/
def cmp_sorted (reverse : Bool) (a b : Value) : Ordering :=
  if reverse then cmp_values cmp_numbers json b a else cmp_values cmp_numbers json a b

theorem sorted_by_values {α : Type} (reverse : Bool) (key : α → Value) (rows : List α) :
    (rows.mergeSort fun x y => cmp_sorted json reverse (key x) (key y) != .gt).Pairwise
      fun x y => cmp_sorted json reverse (key x) (key y) ≠ .gt := by
  apply List.Pairwise.imp (R := fun x y =>
    (cmp_sorted json reverse (key x) (key y) != .gt) = true) fun h => bne_iff_ne.mp h
  apply pairwise_mergeSort
  · intro a b c hab hb
    rw [bne_iff_ne] at hab hb ⊢
    cases reverse with
    | false => exact cmp_values_trans json hab hb
    | true => exact cmp_values_trans json hb hab
  · intro a b
    rw [Bool.or_eq_true, bne_iff_ne, bne_iff_ne]
    cases reverse <;> simp only [cmp_sorted, if_true, if_false, Bool.false_eq_true,
      cmp_values_ne_gt] <;> exact le_total _ _

theorem drain_and_sort_sorted {ε : Type} (p : BatchPolicy ε) (bucket : Bucket ε) :
    (BatchPolicy.drain_and_sort { p with cmp_numbers, json } bucket).exchanges.Pairwise
      fun x y => cmp_values cmp_numbers json ((p.sort_expr x.2).getD .Null)
        ((p.sort_expr y.2).getD .Null) ≠ .gt := by
  unfold BatchPolicy.drain_and_sort
  rw [pairwise_map]
  have hk : ∀ x ∈ (bucket.exchanges.map fun ex => ((p.sort_expr ex.2).getD .Null, ex)).mergeSort
      (fun a b => cmp_values cmp_numbers json a.1 b.1 != .gt),
      x.1 = (p.sort_expr x.2.2).getD .Null := by
    intro x hx
    rw [mem_mergeSort] at hx
    obtain ⟨ex, -, rfl⟩ := mem_map.mp hx
    rfl
  refine (sorted_by_values json false (fun x : Value × Nat × ε => x.1) _).imp_of_mem ?_
  intro x y hx hy hle
  rw [← hk x hx, ← hk y hy]
  exact hle

theorem sort_key_cmp_eq (ha : is_scalar a) (hb : is_scalar b) :
    sort_key_cmp a b = cmp_values cmp_numbers json a b := by
  cases a with
  | Array items | Object entries => cases ha
  | _ =>
    cases b with
    | Array items | Object entries => cases hb
    | _ => rfl

theorem SortKeySource.scalar_of_async {f : Value → Except CamelError Value} {element key : Value}
    (h : (SortKeySource.Async f).key element = .ok key) : is_scalar key := by
  simp only [SortKeySource.key] at h
  split at h
  · cases h
  · split at h
    · cases h
      assumption
    · cases h

theorem keyed_of_mapM {array : List Value} {indexed : List (Value × Value)}
    (h : (array.mapM fun element => do
      let key ← expression.key element
      .ok (key, element)) = Except.ok indexed) :
    indexed.map (·.2) = array ∧ ∀ x ∈ indexed, expression.key x.2 = .ok x.1 := by
  induction array generalizing indexed with
  | nil =>
    cases h
    simp
  | cons element array ih =>
    rw [mapM_cons] at h
    obtain ⟨x, hx, h⟩ := bind_eq_ok h
    obtain ⟨key, hke, hx⟩ := bind_eq_ok hx
    obtain ⟨rest, hr, h⟩ := bind_eq_ok h
    cases hx
    cases h
    obtain ⟨hm, hk⟩ := ih hr
    refine ⟨by simp [hm], ?_⟩
    intro x hx
    rcases mem_cons.mp hx with rfl | hx
    · exact hke
    · exact hk x hx

theorem call_sorts {reverse : Bool} {exchange exchange' : Exchange}
    (hs : ∀ element key, expression.key element = .ok key → is_scalar key)
    (h : SortService.call expression reverse exchange = .ok exchange') :
    ∃ array sorted, exchange.input.body = .Json (.Array array) ∧
      exchange'.input.body = .Json (.Array sorted) ∧ sorted.Perm array ∧
      sorted.Pairwise fun x y => ∀ key key', expression.key x = .ok key →
        expression.key y = .ok key' → cmp_sorted json reverse key key' ≠ .gt := by
  unfold SortService.call at h
  split at h
  · rename_i array hbo
    obtain ⟨indexed, hi, h⟩ := bind_eq_ok h
    obtain ⟨hm, hk⟩ := keyed_of_mapM hi
    cases h
    refine ⟨array, _, hbo, rfl, ?_, ?_⟩
    · rw [← hm]
      exact (mergeSort_perm _ _).map _
    · -- on these keys the two comparisons are one
      have hso : (indexed.mergeSort fun a b =>
          (if reverse then sort_key_cmp b.1 a.1 else sort_key_cmp a.1 b.1) != .gt).map id =
          (indexed.map id).mergeSort fun a b => cmp_sorted json reverse a.1 b.1 != .gt := by
        apply map_mergeSort
        intro a ha b hb
        have has := hs _ _ (hk a ha)
        have hbs := hs _ _ (hk b hb)
        rw [sort_key_cmp_eq json hbs has, sort_key_cmp_eq json has hbs]
        rfl
      rw [map_id, map_id] at hso
      rw [pairwise_map, hso]
      refine (sorted_by_values json reverse (fun x : Value × Value => x.1) indexed).imp_of_mem ?_
      intro x y hx hy hle key key' hke hke'
      rw [mem_mergeSort] at hx hy
      cases (hk x hx).symm.trans hke
      cases (hk y hy).symm.trans hke'
      exact hle
  · cases h

end

/-! ## The documented order -/

/-- The tiers that the docs of `cmp_values` name. -/
def tier : Value → Nat
  | .Null => 0
  | .Bool _ => 1
  | .Number _ => 2
  | .String _ => 3
  | .Array _ => 4
  | .Object _ => 5

/-- The whole number that a value is. -/
def int_of : Value → Option Int
  | .Number n => as_int n
  | _ => none

/-- A string beside an array or an object. -/
def misplaced : Value → Value → Bool
  | .String _, .Array _ | .String _, .Object _ | .Array _, .String _ | .Object _, .String _ => true
  | _, _ => false

theorem cmp_values_by_tier (json : Value → String) (hp : misplaced a b = false)
    (ht : tier a ≠ tier b) : cmp_values cmp_numbers json a b = compare (tier a) (tier b) := by
  cases a <;> cases b <;> first
    | rfl
    | exact absurd rfl ht
    | cases hp

theorem as_f64_of_int {n : Number} {m : Int} (h : as_int n = some m) : as_f64 n = .of_int m := by
  cases n with
  | PosInt n | NegInt n =>
    cases h
    rfl
  | Float bits => cases h

theorem cmp_values_of_int {json : Value → String} {m n : Int} (ha : int_of a = some m)
    (hb : int_of b = some n) :
    cmp_values cmp_numbers json a b = compare (roundInt 53 m) (roundInt 53 n) := by
  cases a with
  | Number x =>
    cases b with
    | Number y =>
      have hcast : compare ((roundInt 53 m : Int) : ℚ) (roundInt 53 n) =
          compare (roundInt 53 m) (roundInt 53 n) := by
        rcases lt_trichotomy (roundInt 53 m) (roundInt 53 n) with hl | heq | hg
        · rw [compare_lt_iff_lt.mpr hl, compare_lt_iff_lt.mpr (Int.cast_lt.mpr hl)]
        · rw [heq]
          simp
        · rw [compare_gt_iff_gt.mpr hg, compare_gt_iff_gt.mpr (Int.cast_lt.mpr hg)]
      simp only [cmp_values, cmp_numbers, as_f64_of_int ha, as_f64_of_int hb, F64.of_int,
        F64.partial_cmp, Option.getD_some, hcast]
    | _ => cases hb
  | _ => cases ha

/-- A rounding that keeps the order tells two numbers apart, or makes them alike. -/
theorem compare_of_mono {f : Int → Int} (hf : ∀ ⦃a b⦄, a ≤ b → f a ≤ f b) (m n : Int) :
    compare (f m) (f n) = compare m n ↔ (m ≠ n → f m ≠ f n) := by
  rcases lt_trichotomy m n with hl | rfl | hg
  · rw [compare_lt_iff_lt.mpr hl, compare_lt_iff_lt]
    have hle := hf hl.le
    have hn := hl.ne
    omega
  · simp
  · rw [compare_gt_iff_gt.mpr hg, compare_gt_iff_gt]
    have hle := hf hg.le
    have hn := hg.ne
    omega

/-- `cmp_values` is a total preorder. Values of different types come in the order of their tiers
(a string beside an array or an object left aside), whole numbers in the order of the doubles they
round to, and so by what they are unless two of them round to one. The batch resequencer and the
sort put their elements in this order. -/
theorem values_are_ordered (json : Value → String) :
    (∀ a, cmp_values cmp_numbers json a a = .eq) ∧
    (∀ a b, cmp_values cmp_numbers json b a = (cmp_values cmp_numbers json a b).swap) ∧
    (∀ a b c, cmp_values cmp_numbers json a b ≠ .gt → cmp_values cmp_numbers json b c ≠ .gt →
      cmp_values cmp_numbers json a c ≠ .gt) ∧
    (∀ a b, misplaced a b = false → tier a ≠ tier b →
      cmp_values cmp_numbers json a b = compare (tier a) (tier b)) ∧
    (∀ a b m n, int_of a = some m → int_of b = some n →
      cmp_values cmp_numbers json a b = compare (roundInt 53 m) (roundInt 53 n) ∧
      (cmp_values cmp_numbers json a b = compare m n ↔ (m ≠ n → roundInt 53 m ≠ roundInt 53 n))) ∧
    (∀ (ε : Type) (p : BatchPolicy ε) (bucket : Bucket ε),
      (BatchPolicy.drain_and_sort { p with cmp_numbers, json } bucket).exchanges.Perm
        bucket.exchanges ∧
      (BatchPolicy.drain_and_sort { p with cmp_numbers, json } bucket).exchanges.Pairwise
        fun x y => cmp_values cmp_numbers json ((p.sort_expr x.2).getD .Null)
          ((p.sort_expr y.2).getD .Null) ≠ .gt) ∧
    (∀ f element key, (SortKeySource.Async f).key element = .ok key → is_scalar key = true) ∧
    ∀ (expression : SortKeySource) reverse exchange exchange',
      (∀ element key, expression.key element = .ok key → is_scalar key = true) →
      SortService.call expression reverse exchange = .ok exchange' →
        ∃ array sorted, exchange.input.body = .Json (.Array array) ∧
          exchange'.input.body = .Json (.Array sorted) ∧ sorted.Perm array ∧
          sorted.Pairwise fun x y => ∀ key key', expression.key x = .ok key →
            expression.key y = .ok key' → cmp_sorted json reverse key key' ≠ .gt := by
  refine ⟨cmp_values_self json, cmp_values_swap json, fun a b c => cmp_values_trans json,
    fun a b => cmp_values_by_tier json, ?_,
    fun ε p bucket => ⟨drain_and_sort_perm _ _, drain_and_sort_sorted json p bucket⟩,
    fun f element key => SortKeySource.scalar_of_async,
    fun expression reverse exchange exchange' => call_sorts json⟩
  intro a b m n ha hb
  have hm := roundInt_mono (p := 53) (by decide)
  refine ⟨cmp_values_of_int ha hb, ?_⟩
  rw [cmp_values_of_int ha hb, compare_of_mono hm]

/-- `2 ^ 53` and the number after it are alike. -/
theorem large_numbers_meet :
    ¬∀ json a b m n, int_of a = some m → int_of b = some n →
      cmp_values cmp_numbers json a b = compare m n := by
  intro h
  have hv := h (fun _ => "") (.Number (.PosInt 9007199254740992))
    (.Number (.PosInt 9007199254740993)) _ _ rfl rfl
  rw [cmp_values_of_int rfl rfl] at hv
  revert hv
  decide +kernel

end camel_processor.sort
