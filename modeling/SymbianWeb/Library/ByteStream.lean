import Mathlib.Data.Int.Init
import Mathlib.Data.Nat.Init
import Mathlib.Data.UInt
import Mathlib.Tactic.Ring

/-!
# Reading what was written to a byte stream

A reader consumes bytes from the front of a list and ends with a value, at the end of the stream,
or in a panic. `Reads r bytes a` says that `r`, given `bytes` and anything behind them, returns
`a` and consumes exactly `bytes`. It composes along sequences of fields (`Reads.bind`), so that a
writer and a reader are matched field by field. `Yields P r` says that whatever `r` returns
satisfies `P`.
-/

set_option autoImplicit false

namespace SymbianWeb.ByteStream

/-- Ways a read can fail: the stream ends, or the reader panics. -/
inductive StreamError where
  | eof
  | panic
  deriving DecidableEq

/-- Readers of a byte stream. -/
abbrev Reader (α : Type) := StateT (List UInt8) (Except StreamError) α

variable {α β : Type}

/-- Stop with an error. -/
def failWith (e : StreamError) : Reader α := fun _ => .error e

/-- The next `n` bytes. -/
def readBytes (n : Nat) : Reader (List UInt8) := fun bytes =>
  if n ≤ bytes.length then .ok (bytes.take n, bytes.drop n) else .error .eof

/-- `k` bytes of a number, lowest byte first. -/
def leBytes : Nat → Nat → List UInt8
  | 0, _ => []
  | k + 1, n => UInt8.ofNat n :: leBytes k (n / 256)

/-- The number with the given bytes, lowest byte first. -/
def leValue : List UInt8 → Nat
  | [] => 0
  | b :: bs => b.toNat + 256 * leValue bs

/-- A number stored in `k` bytes. -/
def readLe (k : Nat) : Reader Nat := leValue <$> readBytes k

/-- A 32-bit two's complement number. -/
def writeInt32 (v : Int) : List UInt8 := leBytes 4 (v % 4294967296).toNat

/-- Read back a 32-bit two's complement number. -/
def readInt32 : Reader Int :=
  (fun n : Nat => if n < 2147483648 then (n : Int) else (n : Int) - 4294967296) <$> readLe 4

/-- 16-bit units, lowest byte first. -/
def writeUnits (units : List UInt16) : List UInt8 := units.flatMap fun u => leBytes 2 u.toNat

/-- Read `n` 16-bit units. -/
def readUnits : Nat → Reader (List UInt16)
  | 0 => pure []
  | n + 1 => do
      let u ← readLe 2
      let us ← readUnits n
      pure (UInt16.ofNat u :: us)

@[simp] theorem length_leBytes (k n : Nat) : (leBytes k n).length = k := by
  induction k generalizing n with
  | zero => rfl
  | succ k ih => rw [leBytes, List.length_cons, ih]

theorem leValue_leBytes (k n : Nat) : leValue (leBytes k n) = n % 256 ^ k := by
  induction k generalizing n with
  | zero => rw [leBytes, leValue, pow_zero, Nat.mod_one]
  | succ k ih =>
      have hbyte : (UInt8.ofNat n).toNat = n % 256 := UInt8.toNat_ofNat'
      rw [leBytes, leValue, ih, hbyte, Nat.pow_succ', Nat.mod_mul]

theorem leBytes_leValue (bytes : List UInt8) : leBytes bytes.length (leValue bytes) = bytes := by
  induction bytes with
  | nil => rfl
  | cons b rest ih =>
      have hb : b.toNat < 256 := b.toNat_lt
      have hfirst : UInt8.ofNat (b.toNat + 256 * leValue rest) = b := by
        apply UInt8.toNat_inj.mp
        rw [UInt8.toNat_ofNat']
        omega
      have hrest : (b.toNat + 256 * leValue rest) / 256 = leValue rest := by omega
      rw [List.length_cons, leValue, leBytes, hfirst, hrest, ih]

theorem leValue_lt (bytes : List UInt8) : leValue bytes < 256 ^ bytes.length := by
  induction bytes with
  | nil => exact Nat.one_pos
  | cons b rest ih =>
      have hb : b.toNat < 256 := b.toNat_lt
      rw [leValue, List.length_cons, pow_succ]
      omega

/-! ## Reads -/

/-- `r` reads exactly `bytes`, whatever follows, and returns `a`. -/
def Reads (r : Reader α) (bytes : List UInt8) (a : α) : Prop :=
  ∀ rest, r (bytes ++ rest) = .ok (a, rest)

theorem Reads.pure (a : α) : Reads (pure a : Reader α) [] a := fun _ => rfl

theorem Reads.bind {r : Reader α} {k : α → Reader β} {bytes bytes' : List UInt8} {a : α} {b : β}
    (hr : Reads r bytes a) (hk : Reads (k a) bytes' b) :
    Reads (r >>= k) (bytes ++ bytes') b := by
  intro rest
  show (r (bytes ++ bytes' ++ rest)).bind (fun p => k p.1 p.2) = _
  rw [List.append_assoc, hr (bytes' ++ rest)]
  exact hk rest

/-- A read that is followed by something that reads no more. -/
theorem Reads.bind_nil {r : Reader α} {k : α → Reader β} {bytes : List UInt8} {a : α} {b : β}
    (hr : Reads r bytes a) (hk : Reads (k a) [] b) : Reads (r >>= k) bytes b := by
  have h := hr.bind hk
  rwa [List.append_nil] at h

/-- The last read of a record. -/
theorem Reads.bind_pure {r : Reader α} {bytes : List UInt8} {a : α} (hr : Reads r bytes a)
    (f : α → β) : Reads (r >>= fun a => Pure.pure (f a)) bytes (f a) :=
  hr.bind_nil (Reads.pure (f a))

theorem Reads.map {r : Reader α} {bytes : List UInt8} {a : α} (f : α → β)
    (hr : Reads r bytes a) : Reads (f <$> r) bytes (f a) := by
  intro rest
  have h := hr.bind_pure f rest
  rwa [bind_pure_comp] at h

theorem reads_readBytes {n : Nat} {bytes : List UInt8} (h : bytes.length = n) :
    Reads (readBytes n) bytes bytes := by
  intro rest
  subst h
  rw [readBytes, if_pos (by simp), List.take_left, List.drop_left]

theorem reads_readLe {k n : Nat} (h : n < 256 ^ k) : Reads (readLe k) (leBytes k n) n := by
  have hread := (reads_readBytes (length_leBytes k n)).map leValue
  rwa [leValue_leBytes, Nat.mod_eq_of_lt h] at hread

theorem reads_readInt32 {v : Int} (hlo : -2147483648 ≤ v) (hhi : v < 2147483648) :
    Reads readInt32 (writeInt32 v) v := by
  have hlt : (v % 4294967296).toNat < 256 ^ 4 := by
    have : (256 : Nat) ^ 4 = 4294967296 := by norm_num
    omega
  have hread := (reads_readLe hlt).map
    (fun n : Nat => if n < 2147483648 then (n : Int) else (n : Int) - 4294967296)
  have hval : (if (v % 4294967296).toNat < 2147483648 then ((v % 4294967296).toNat : Int)
      else ((v % 4294967296).toNat : Int) - 4294967296) = v := by
    split <;> omega
  rw [hval] at hread
  exact hread

theorem reads_readUnits (units : List UInt16) :
    Reads (readUnits units.length) (writeUnits units) units := by
  induction units with
  | nil => exact Reads.pure []
  | cons u units ih =>
      have hu : u.toNat < 256 ^ 2 := by
        have : (256 : Nat) ^ 2 = 65536 := by norm_num
        have := u.toNat_lt
        omega
      have htail : Reads (readUnits units.length >>= fun us =>
          (Pure.pure (UInt16.ofNat u.toNat :: us) : Reader (List UInt16)))
          (writeUnits units ++ []) (UInt16.ofNat u.toNat :: units) := ih.bind (Reads.pure _)
      rw [List.append_nil] at htail
      have hread := (reads_readLe hu).bind
        (k := fun v => readUnits units.length >>= fun us => Pure.pure (UInt16.ofNat v :: us)) htail
      rw [UInt16.ofNat_toNat] at hread
      exact hread

/-- What comes behind a read goes on behind its bytes. -/
theorem Reads.bind_run {r : Reader α} {bytes : List UInt8} {a : α} (hr : Reads r bytes a)
    (k : α → Reader β) (rest : List UInt8) : (r >>= k) (bytes ++ rest) = k a rest := by
  show (r (bytes ++ rest)).bind (fun p => k p.1 p.2) = _
  rw [hr rest]
  rfl

/-! ## Yields -/

/-- Everything `r` can return satisfies `P`. -/
def Yields (P : α → Prop) (r : Reader α) : Prop :=
  ∀ bytes a rest, r bytes = .ok (a, rest) → P a

theorem Yields.pure {P : α → Prop} {a : α} (h : P a) : Yields P (pure a : Reader α) := by
  intro bytes b rest hrun
  change Except.ok (a, bytes) = .ok (b, rest) at hrun
  cases hrun
  exact h

theorem Yields.failWith {P : α → Prop} (e : StreamError) : Yields P (failWith e) := by
  intro bytes b rest hrun
  cases hrun

theorem Yields.bind {P : β → Prop} {r : Reader α} {k : α → Reader β}
    (h : ∀ a, Yields P (k a)) : Yields P (r >>= k) := by
  intro bytes b rest hrun
  change (r bytes >>= fun p => k p.1 p.2) = .ok (b, rest) at hrun
  cases hr : r bytes with
  | error e =>
      rw [hr] at hrun
      cases hrun
  | ok p =>
      rw [hr] at hrun
      exact h p.1 p.2 b rest hrun

theorem Yields.map {P : β → Prop} {Q : α → Prop} {f : α → β} {r : Reader α} (hr : Yields Q r)
    (hf : ∀ a, Q a → P (f a)) : Yields P (f <$> r) := by
  intro bytes b rest hrun
  change (r bytes >>= fun p => Except.ok (f p.1, p.2)) = .ok (b, rest) at hrun
  cases hp : r bytes with
  | error e =>
      rw [hp] at hrun
      cases hrun
  | ok p =>
      rw [hp] at hrun
      cases hrun
      exact hf p.1 (hr bytes p.1 p.2 hp)

theorem Yields.ite {P : α → Prop} {c : Prop} [Decidable c] {x y : Reader α}
    (hx : c → Yields P x) (hy : ¬ c → Yields P y) : Yields P (if c then x else y) := by
  cases hc : decide c with
  | true =>
      rw [if_pos (of_decide_eq_true hc)]
      exact hx (of_decide_eq_true hc)
  | false =>
      rw [if_neg (of_decide_eq_false hc)]
      exact hy (of_decide_eq_false hc)

/-! ## Reads under a condition -/

/-- Given `bytes` and anything behind them, `r` returns `a` and consumes exactly `bytes` if `p`
holds, and fails otherwise. -/
structure Carries (p : Prop) (r : Reader α) (bytes : List UInt8) (a : α) : Prop where
  reads : p → Reads r bytes a
  fails : ¬ p → ∀ rest, ∃ e, r (bytes ++ rest) = .error e

theorem Reads.carries {r : Reader α} {bytes : List UInt8} {a : α} (h : Reads r bytes a) :
    Carries True r bytes a :=
  ⟨fun _ => h, fun hfalse => absurd trivial hfalse⟩

theorem Carries.congr {p q : Prop} {r : Reader α} {bytes : List UInt8} {a : α}
    (h : Carries p r bytes a) (hiff : p ↔ q) : Carries q r bytes a :=
  ⟨fun hq => h.reads (hiff.2 hq), fun hq => h.fails (mt hiff.1 hq)⟩

/-- A sequence of two reads succeeds if both do. -/
theorem Carries.bind {p q : Prop} {r : Reader α} {k : α → Reader β} {bytes bytes' : List UInt8}
    {a : α} {b : β} (hr : Carries p r bytes a) (hk : Carries q (k a) bytes' b) :
    Carries (p ∧ q) (r >>= k) (bytes ++ bytes') b := by
  constructor
  · rintro ⟨hp, hq⟩
    exact (hr.reads hp).bind (hk.reads hq)
  · intro hnot rest
    show ∃ e, (r (bytes ++ bytes' ++ rest)).bind (fun p => k p.1 p.2) = .error e
    rw [List.append_assoc]
    by_cases hp : p
    · rw [hr.reads hp (bytes' ++ rest)]
      exact hk.fails (fun hq => hnot ⟨hp, hq⟩) rest
    · obtain ⟨e, he⟩ := hr.fails hp (bytes' ++ rest)
      rw [he]
      exact ⟨e, rfl⟩

/-- A read without a condition in front. -/
theorem Carries.after {q : Prop} {r : Reader α} {k : α → Reader β} {bytes bytes' : List UInt8}
    {a : α} {b : β} (hk : Carries q (k a) bytes' b) (hr : Reads r bytes a) :
    Carries q (r >>= k) (bytes ++ bytes') b :=
  (hr.carries.bind hk).congr (and_iff_right trivial)

/-- The whole stream is read to its end if and only if the condition holds. -/
theorem Carries.run_iff {p : Prop} {r : Reader α} {bytes : List UInt8} {a : α}
    (h : Carries p r bytes a) (b : α) : r bytes = .ok (b, []) ↔ p ∧ b = a := by
  constructor
  · intro hrun
    by_cases hp : p
    · have hread := h.reads hp []
      rw [List.append_nil, hrun, Except.ok.injEq, Prod.mk.injEq] at hread
      exact ⟨hp, hread.1⟩
    · obtain ⟨e, he⟩ := h.fails hp []
      rw [List.append_nil, hrun] at he
      cases he
  · rintro ⟨hp, rfl⟩
    have hread := h.reads hp []
    rwa [List.append_nil] at hread

/-! ## Lists -/

/-- The same read `n` times. -/
def readList (r : Reader α) : Nat → Reader (List α)
  | 0 => pure []
  | n + 1 => do
      let a ← r
      let as ← readList r n
      pure (a :: as)

/-- A list that is written element by element. -/
theorem carries_readList {ι : Type} {p : ι → Prop} {r : Reader α} {w : ι → List UInt8}
    {f : ι → α} {items : List ι} (h : ∀ i ∈ items, Carries (p i) r (w i) (f i)) :
    Carries (∀ i ∈ items, p i) (readList r items.length) (items.flatMap w) (items.map f) := by
  induction items with
  | nil => exact (Reads.pure []).carries.congr (by simp)
  | cons i items ih =>
      have htail := ih fun j hmem => h j (List.mem_cons_of_mem _ hmem)
      have hpure : Carries True (Pure.pure (f i :: items.map f) : Reader (List α)) []
          (f i :: items.map f) := (Reads.pure _).carries
      have hrest := htail.bind (k := fun as => Pure.pure (f i :: as)) hpure
      rw [List.append_nil] at hrest
      have hall := (h i List.mem_cons_self).bind
        (k := fun a => readList r items.length >>= fun as => Pure.pure (a :: as)) hrest
      exact hall.congr (by rw [and_true, List.forall_mem_cons])

end SymbianWeb.ByteStream
