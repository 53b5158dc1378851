import SymbianWeb.Library.ByteStream

/-!
# Programs that read a stream, and what serves them

A `ReadProg` asks for so many bytes at a time and goes on with what it gets. It runs over anything
that serves such requests: over a list of bytes (`toReader`), or over a state with a read of its
own (`run`). What is proved of a program on lists of bytes carries over to every state whose reads
agree with a list (`Serves`, `run_of_reads`).

On the other side `writeAll` writes blocks of bytes one behind the other. A sink whose writes
append one block (`Appends`) appends them all (`Appends.writeAll`).
-/

set_option autoImplicit false

namespace SymbianWeb.ByteStream

/-- A program that reads from a stream. -/
inductive ReadProg (α : Type) where
  | done (a : α)
  | fail (e : StreamError)
  | read (n : Nat) (next : List UInt8 → ReadProg α)

namespace ReadProg

variable {α β σ : Type}

/-- Goes on with the value of a program. -/
def bind : ReadProg α → (α → ReadProg β) → ReadProg β
  | done a, k => k a
  | fail e, _ => fail e
  | read n next, k => read n fun bytes => (next bytes).bind k

instance : Monad ReadProg where
  pure := done
  bind := bind

/-- The next `n` bytes. -/
def bytes (n : Nat) : ReadProg (List UInt8) := read n done

/-- Runs a program over a state with the given read. -/
def run (readL : Nat → StateT σ (Except StreamError) (List UInt8)) :
    ReadProg α → StateT σ (Except StreamError) α
  | done a => pure a
  | fail e => fun _ => .error e
  | read n next => fun s =>
      match readL n s with
      | .error e => .error e
      | .ok (got, s') => run readL (next got) s'

/-- Runs a program over a list of bytes. -/
abbrev toReader (p : ReadProg α) : Reader α := p.run readBytes

/-- The same program as many times over, with its values behind `acc`. -/
def times (p : ReadProg α) : Nat → List α → ReadProg (List α)
  | 0, acc => pure acc
  | n + 1, acc => do
      let a ← p
      times p n (acc ++ [a])

variable {readL : Nat → StateT σ (Except StreamError) (List UInt8)}

theorem run_read_of_ok {n : Nat} {next : List UInt8 → ReadProg α} {s s' : σ} {got : List UInt8}
    (h : readL n s = .ok (got, s')) : (read n next).run readL s = (next got).run readL s' := by
  simp only [run, h]

theorem run_bind (p : ReadProg α) (k : α → ReadProg β) (s : σ) :
    (p >>= k).run readL s = (p.run readL s).bind fun r => (k r.1).run readL r.2 := by
  induction p generalizing s with
  | done a => rfl
  | fail e => rfl
  | read n next ih =>
      show (read n fun got => (next got) >>= k).run readL s = _
      simp only [run]
      cases readL n s with
      | error e => rfl
      | ok r => exact ih r.1 r.2

/-! ## Programs over lists of bytes -/

theorem reads_pure (a : α) : Reads (pure a : ReadProg α).toReader [] a := fun _ => rfl

theorem reads_bytes {n : Nat} {block : List UInt8} (h : block.length = n) :
    Reads (bytes n).toReader block block := by
  intro rest
  exact (run_read_of_ok (reads_readBytes h rest)).trans rfl

theorem reads_bind {p : ReadProg α} {k : α → ReadProg β} {block block' : List UInt8} {a : α} {b : β}
    (hp : Reads p.toReader block a) (hk : Reads (k a).toReader block' b) :
    Reads (p >>= k).toReader (block ++ block') b := by
  intro rest
  have hrun : p.run readBytes (block ++ (block' ++ rest)) = .ok (a, block' ++ rest) := hp _
  rw [toReader, run_bind, List.append_assoc, hrun]
  exact hk rest

/-- A program for one value reads a list of values, whatever blocks of bytes these have. -/
theorem reads_times {p : ReadProg α} {write : α → List UInt8} (l acc : List α)
    (h : ∀ a ∈ l, Reads p.toReader (write a) a) :
    Reads (p.times l.length acc).toReader (l.flatMap write) (acc ++ l) := by
  induction l generalizing acc with
  | nil =>
      rw [List.append_nil]
      exact reads_pure acc
  | cons a l ih =>
      have htail := ih (acc ++ [a]) fun b hb => h b (List.mem_cons_of_mem a hb)
      rw [List.append_assoc, List.singleton_append] at htail
      exact reads_bind (h a List.mem_cons_self) htail

/-! ## Programs over a state -/

/-- The reads of a state are those of the bytes that `Sees` gives for it. -/
def Serves (readL : Nat → StateT σ (Except StreamError) (List UInt8))
    (Sees : σ → List UInt8 → Prop) : Prop :=
  ∀ n s pending, Sees s pending → n ≤ pending.length →
    ∃ s', readL n s = .ok (pending.take n, s') ∧ Sees s' (pending.drop n)

theorem run_of_run {Sees : σ → List UInt8 → Prop} (hserves : Serves readL Sees) (p : ReadProg α) :
    ∀ {s : σ} {pending rest : List UInt8} {a : α}, Sees s pending →
      p.toReader pending = .ok (a, rest) →
      ∃ s', p.run readL s = .ok (a, s') ∧ Sees s' rest := by
  induction p with
  | done b =>
      intro s pending rest a hsees hrun
      cases hrun
      exact ⟨s, rfl, hsees⟩
  | fail e =>
      intro s pending rest a hsees hrun
      cases hrun
  | read n next ih =>
      intro s pending rest a hsees hrun
      cases hle : decide (n ≤ pending.length) with
      | false =>
          -- the list ends before the request is served
          have heof : readBytes n pending = .error .eof := by
            rw [readBytes, if_neg (of_decide_eq_false hle)]
          simp only [toReader, run, heof] at hrun
          cases hrun
      | true =>
          have hle := of_decide_eq_true hle
          have hbytes : readBytes n pending = .ok (pending.take n, pending.drop n) := by
            rw [readBytes, if_pos hle]
          obtain ⟨s₁, hread, hsees₁⟩ := hserves n s pending hsees hle
          rw [toReader, run_read_of_ok hbytes] at hrun
          obtain ⟨s', hrest, hsees'⟩ := ih _ hsees₁ hrun
          exact ⟨s', (run_read_of_ok hread).trans hrest, hsees'⟩

/-- A program that reads a block of bytes reads it from every state that sees the block next. -/
theorem run_of_reads {Sees : σ → List UInt8 → Prop} (hserves : Serves readL Sees) {p : ReadProg α}
    {block rest : List UInt8} {a : α} {s : σ} (hp : Reads p.toReader block a)
    (hsees : Sees s (block ++ rest)) :
    ∃ s', p.run readL s = .ok (a, s') ∧ Sees s' rest :=
  run_of_run hserves p hsees (hp rest)

end ReadProg

/-! ## Writing blocks of bytes -/

section

variable {σ : Type}

/-- Writes the blocks one behind the other. -/
def writeAll (writeL : List UInt8 → σ → σ) (blocks : List (List UInt8)) (s : σ) : σ :=
  blocks.foldl (fun s block => writeL block s) s

/-- A write appends one block to the bytes that `Holds` gives for the state. -/
def Appends (writeL : List UInt8 → σ → σ) (Holds : σ → List UInt8 → Prop) : Prop :=
  ∀ block s held, Holds s held → Holds (writeL block s) (held ++ block)

theorem Appends.writeAll {writeL : List UInt8 → σ → σ} {Holds : σ → List UInt8 → Prop}
    (h : Appends writeL Holds) (blocks : List (List UInt8)) {s : σ} {held : List UInt8}
    (hs : Holds s held) : Holds (writeAll writeL blocks s) (held ++ blocks.flatten) := by
  induction blocks generalizing s held with
  | nil =>
      rw [List.flatten_nil, List.append_nil]
      exact hs
  | cons block blocks ih =>
      have htail := ih (h block s held hs)
      rw [List.append_assoc] at htail
      exact htail

end

end SymbianWeb.ByteStream
