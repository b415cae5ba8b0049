import Soaplin.Foundation.Word64

/-!
# Byte-addressed memories

A memory maps every address to a byte.  `load m a k` reads `k` bytes at `a` as a little-endian
number and `store m a v k` writes the low `k` bytes of `v` there.  A load reads back what a store
to the same place has written (`load_store_same`) and is not affected by a store elsewhere
(`load_store_of_disjoint`); both follow from what a store does to a single byte.
-/

namespace ByteMemory

/-- A byte-addressed memory. -/
abbrev Memory := ℕ → UInt8

/-- The little-endian number in the `k` bytes from `a` on. -/
def load (m : Memory) (a : ℕ) : ℕ → ℕ
  | 0 => 0
  | k + 1 => (m a).toNat + 256 * load m (a + 1) k

/-- The memory after writing the low `k` bytes of `v`, least significant first, from `a` on. -/
def store (m : Memory) (a v : ℕ) : ℕ → Memory
  | 0 => m
  | k + 1 => store (Function.update m a (UInt8.ofNat v)) (a + 1) (v / 256) k

/-- A 64-bit load. -/
def load64 (m : Memory) (a : ℕ) : ℕ := load m a 8

/-- A 64-bit store. -/
def store64 (m : Memory) (a v : ℕ) : Memory := store m a v 8

/-- A store leaves the bytes outside its range alone. -/
lemma store_apply_of_disjoint {m : Memory} {a v k x : ℕ} (hx : x < a ∨ a + k ≤ x) :
    store m a v k x = m x := by
  induction k generalizing m a v with
  | zero => rfl
  | succ k ih =>
    rw [store, ih (by omega)]
    exact Function.update_of_ne (by omega) _ _

/-- Whether a store reaches a byte does not depend on the memory. -/
lemma store_congr {m m' : Memory} {a v k x : ℕ} (h : m x = m' x) :
    store m a v k x = store m' a v k x := by
  induction k generalizing m m' a v with
  | zero => exact h
  | succ k ih =>
    rw [store, store]
    refine ih ?_
    by_cases hx : x = a
    · subst hx
      rw [Function.update_self, Function.update_self]
    · rw [Function.update_of_ne hx, Function.update_of_ne hx, h]

/-- A load only depends on the bytes of its range. -/
lemma load_congr {m m' : Memory} {a k : ℕ} (h : ∀ x, a ≤ x → x < a + k → m x = m' x) :
    load m a k = load m' a k := by
  induction k generalizing a with
  | zero => rfl
  | succ k ih =>
    rw [load, load, h a le_rfl (by omega), ih fun x hx hxk => h x (by omega) (by omega)]

/-- A load is a number of `k` bytes. -/
lemma load_lt (m : Memory) (a k : ℕ) : load m a k < 256 ^ k := by
  induction k generalizing a with
  | zero => simp [load]
  | succ k ih =>
    have hb : (m a).toNat < 256 := (m a).toNat_lt
    have hr := ih (a + 1)
    rw [load, pow_succ]
    omega

/-- A load reads back what a store to the same place has written. -/
lemma load_store_same (m : Memory) (a v k : ℕ) : load (store m a v k) a k = v % 256 ^ k := by
  induction k generalizing m a v with
  | zero => simp [load, Nat.mod_one]
  | succ k ih =>
    have hhead : store m a v (k + 1) a = UInt8.ofNat v := by
      rw [store, store_apply_of_disjoint (by omega)]
      exact Function.update_self _ _ _
    have hbyte : (UInt8.ofNat v).toNat = v % 256 := by simp
    rw [load, hhead, store, ih, hbyte, pow_succ', Nat.mod_mul]

/-- A load is not affected by a store to a disjoint range. -/
lemma load_store_of_disjoint {m : Memory} {a v k b l : ℕ} (h : b + l ≤ a ∨ a + k ≤ b) :
    load (store m a v k) b l = load m b l :=
  load_congr fun x hx hxl => store_apply_of_disjoint (by omega)

/-- Storing what is there already changes nothing. -/
lemma store_load_self (m : Memory) (a k : ℕ) : store m a (load m a k) k = m := by
  induction k generalizing a with
  | zero => rfl
  | succ k ih =>
    have hlow : (m a).toNat < 256 := (m a).toNat_lt
    have hbyte : UInt8.ofNat (load m a (k + 1)) = m a := by
      apply UInt8.toNat.inj
      rw [load, UInt8.toNat_ofNat']
      omega
    have hrest : load m a (k + 1) / 256 = load m (a + 1) k := by
      rw [load]
      omega
    rw [store, hbyte, hrest, Function.update_eq_self, ih]

/-! ### 64-bit accesses -/

/-- A 64-bit load is a word. -/
lemma load64_lt (m : Memory) (a : ℕ) : load64 m a < Word64.modulus :=
  lt_of_lt_of_eq (load_lt m a 8) (by norm_num)

/-- A 64-bit load reads back the stored word. -/
lemma load64_store64_same {m : Memory} {a v : ℕ} (hv : v < Word64.modulus) :
    load64 (store64 m a v) a = v := by
  rw [load64, store64, load_store_same]
  exact Nat.mod_eq_of_lt (lt_of_lt_of_eq hv (by norm_num))

/-- A 64-bit load reads back the stored number modulo the word size. -/
lemma load64_store64_mod (m : Memory) (a v : ℕ) :
    load64 (store64 m a v) a = v % Word64.modulus := by
  rw [load64, store64, load_store_same]
  norm_num

/-- A 64-bit load is not affected by a 64-bit store to a disjoint place. -/
lemma load64_store64_of_disjoint {m : Memory} {a b v : ℕ} (h : b + 8 ≤ a ∨ a + 8 ≤ b) :
    load64 (store64 m a v) b = load64 m b :=
  load_store_of_disjoint h

/-- A 64-bit store leaves the bytes outside its eight bytes alone. -/
lemma store64_apply_of_disjoint {m : Memory} {a v x : ℕ} (hx : x < a ∨ a + 8 ≤ x) :
    store64 m a v x = m x :=
  store_apply_of_disjoint hx

/-- Whether a 64-bit store reaches a byte does not depend on the memory. -/
lemma store64_congr {m m' : Memory} {a v x : ℕ} (h : m x = m' x) :
    store64 m a v x = store64 m' a v x :=
  store_congr h

/-- A 64-bit load only depends on its eight bytes. -/
lemma load64_congr {m m' : Memory} {a : ℕ} (h : ∀ x, a ≤ x → x < a + 8 → m x = m' x) :
    load64 m a = load64 m' a :=
  load_congr h

/-- A 64-bit load over zero bytes is zero. -/
lemma load64_eq_zero {m : Memory} {a : ℕ} (h : ∀ x, a ≤ x → x < a + 8 → m x = 0) :
    load64 m a = 0 := by
  have hzero : load64 m a = load64 (fun _ => 0) a := load64_congr h
  rw [hzero]
  simp [load64, load]

/-- A 64-bit store of the word that is there already changes nothing. -/
lemma store64_load64_self (m : Memory) (a : ℕ) : store64 m a (load64 m a) = m :=
  store_load_self m a 8

end ByteMemory
