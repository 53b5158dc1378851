import SymbianWeb.Favourites.StreamBuffers

/-!
# What is sent is what is received

A buffer of the server is described by the bytes behind its read mark (`SrvBuf.Holds`), a client
that reads by the bytes that are still to come, in its area or at the server (`Reading`), and a
client that writes by the bytes that the server will read once the stream is committed
(`Writing`). The operations on the areas are proved against these descriptions, so that the size
of the area and the places where it runs full or empty do not appear in the results.
-/

set_option autoImplicit false

namespace SymbianWeb.Favourites.Streams

open ByteStream ReadProg

/-! ## Overwriting -/

theorem length_overwrite {data block : List UInt8} {pos : Nat}
    (h : pos + block.length ≤ data.length) : (overwrite data pos block).length = data.length := by
  simp only [overwrite, List.length_append, List.length_take, List.length_drop]
  omega

theorem take_overwrite {data : List UInt8} {pos : Nat} (block : List UInt8)
    (h : pos ≤ data.length) :
    (overwrite data pos block).take (pos + block.length) = data.take pos ++ block := by
  have hlen : (data.take pos ++ block).length = pos + block.length := by
    rw [List.length_append, List.length_take, Nat.min_eq_left h]
  rw [overwrite, List.take_left' hlen]

theorem overwrite_end (data block : List UInt8) :
    overwrite data data.length block = data ++ block := by
  simp [overwrite]

/-! ## Server side -/

/-- The bytes behind the read mark are `pending`, and what is written goes behind them. -/
structure SrvBuf.Holds (host : SrvBuf) (pending : List UInt8) : Prop where
  readMark_le : host.readMark ≤ host.data.length
  writeMark_eq : host.writeMark = host.data.length
  unread_eq : host.unread = pending

namespace SrvBuf

theorem holds_new : new.Holds [] := ⟨le_refl 0, rfl, rfl⟩

theorem Holds.length {host : SrvBuf} {pending : List UInt8} (h : host.Holds pending) :
    host.readMark + pending.length = host.data.length := by
  have hle := h.readMark_le
  rw [← h.unread_eq, unread, List.length_drop]
  omega

theorem Holds.readL_eq {host : SrvBuf} {pending : List UInt8} (h : host.Holds pending) (n : Nat) :
    (host.readL n).1 = pending.take n := by
  rw [readL, h.unread_eq]

theorem Holds.readL {host : SrvBuf} {pending : List UInt8} (h : host.Holds pending) (n : Nat) :
    (host.readL n).2.Holds (pending.drop n) := by
  have hlen := h.length
  have hgot : (host.unread.take n).length = min n pending.length := by
    rw [h.unread_eq, List.length_take]
  refine ⟨?_, h.writeMark_eq, ?_⟩
  · show host.readMark + (host.unread.take n).length ≤ host.data.length
    omega
  · show host.data.drop (host.readMark + (host.unread.take n).length) = pending.drop n
    rw [← List.drop_drop, hgot]
    show host.unread.drop (min n pending.length) = pending.drop n
    rw [h.unread_eq]
    rcases Nat.le_total n pending.length with hn | hn
    · rw [Nat.min_eq_left hn]
    · rw [Nat.min_eq_right hn, List.drop_length, List.drop_of_length_le hn]

theorem serves_streamReadL : Serves streamReadL Holds := by
  intro n host pending h hle
  have hgot := h.readL_eq n
  refine ⟨(host.readL n).2, ?_, h.readL n⟩
  have hlen : ¬ (host.readL n).1.length < n := by
    rw [hgot, List.length_take]
    omega
  rw [← hgot]
  exact if_neg hlen

theorem appends_writeL : Appends writeL Holds := by
  intro block host pending h
  have hdata : (host.writeL block).data = host.data ++ block := by
    show overwrite host.data host.writeMark block = _
    rw [h.writeMark_eq, overwrite_end]
  refine ⟨?_, ?_, ?_⟩
  · rw [hdata, List.length_append]
    exact h.readMark_le.trans (Nat.le_add_right _ _)
  · rw [hdata, List.length_append, ← h.writeMark_eq]
    rfl
  · rw [unread, hdata]
    show (host.data ++ block).drop host.readMark = pending ++ block
    rw [List.drop_append_of_le_length h.readMark_le]
    exact congrArg (· ++ block) h.unread_eq

theorem holds_writeAll (blocks : List (List UInt8)) {host : SrvBuf} {pending : List UInt8}
    (h : host.Holds pending) : (writeAll writeL blocks host).Holds (pending ++ blocks.flatten) :=
  appends_writeL.writeAll blocks h

/-- The first bytes of a stream travel with the answer and the rest stays. -/
theorem Holds.newStreamL {host : SrvBuf} {pending : List UInt8} (h : host.Holds pending)
    (hnew : host.readMark = 0) :
    (newStreamL host).1 = pending.take streamBufSize ∧
      (newStreamL host).2.Holds (pending.drop streamBufSize) := by
  have hlen := h.length
  rw [hnew, Nat.zero_add] at hlen
  unfold Streams.newStreamL
  simp only
  rw [← hlen]
  cases pending with
  | nil =>
      rw [List.length_nil, Nat.zero_min, if_pos rfl, List.take_nil, List.drop_nil]
      exact ⟨rfl, h⟩
  | cons b pending =>
      have hne : ¬ min (b :: pending).length streamBufSize = 0 := by
        simp [streamBufSize]
      rw [if_neg hne, h.readL_eq]
      have hread := h.readL (min (b :: pending).length streamBufSize)
      rcases Nat.le_total (b :: pending).length streamBufSize with hle | hle
      · rw [Nat.min_eq_left hle] at hread ⊢
        rw [List.drop_length] at hread
        rw [List.take_length, List.take_of_length_le hle, List.drop_of_length_le hle]
        exact ⟨rfl, hread⟩
      · rw [Nat.min_eq_right hle] at hread ⊢
        exact ⟨rfl, hread⟩

end SrvBuf

/-! ## A client that reads -/

/-- The read area of the client. -/
def RFavouritesBuf.readArea (buf : RFavouritesBuf) : List UInt8 :=
  (buf.iData.drop buf.rPtr).take (buf.rEnd - buf.rPtr)

/-- The client will read `pending`: what is in its read area, and behind that what the server
has. It has written nothing. -/
structure Reading (link : Link) (pending : List UInt8) : Prop where
  length_iData : link.buf.iData.length = streamBufSize
  rPtr_le : link.buf.rPtr ≤ link.buf.rEnd
  rEnd_le : link.buf.rEnd ≤ streamBufSize
  wPtr_eq : link.buf.wPtr = 0
  wEnd_eq : link.buf.wEnd = 0
  atServer : ∃ behind, link.host.Holds behind ∧ link.buf.readArea ++ behind = pending

namespace Reading

variable {link : Link} {pending : List UInt8}

theorem length_readArea (h : Reading link pending) :
    link.buf.readArea.length = link.buf.rEnd - link.buf.rPtr := by
  have hend := h.rEnd_le
  have hdata := h.length_iData
  rw [RFavouritesBuf.readArea, List.length_take, List.length_drop]
  omega

/-- Between two reads from the server both areas are empty or only the read area has data. -/
theorem of_answer {iData behind : List UInt8} {host : SrvBuf} (got : List UInt8)
    (hdata : iData.length = streamBufSize) (hgot : got.length ≤ streamBufSize)
    (hhost : host.Holds behind) :
    Reading ⟨⟨overwrite iData 0 got, 0, got.length, 0, 0⟩, host⟩ (got ++ behind) := by
  have hfit : 0 + got.length ≤ iData.length := by omega
  refine ⟨(length_overwrite hfit).trans hdata, Nat.zero_le _, hgot, rfl, rfl, behind, hhost, ?_⟩
  have harea := take_overwrite got (Nat.zero_le iData.length)
  rw [Nat.zero_add, List.take_zero, List.nil_append] at harea
  rw [RFavouritesBuf.readArea]
  show ((overwrite iData 0 got).drop 0).take (got.length - 0) ++ behind = got ++ behind
  rw [List.drop_zero, Nat.sub_zero, harea]

theorem idle {iData behind : List UInt8} {host : SrvBuf} (hdata : iData.length = streamBufSize)
    (hhost : host.Holds behind) : Reading ⟨⟨iData, 0, 0, 0, 0⟩, host⟩ behind :=
  ⟨hdata, le_refl 0, Nat.zero_le _, rfl, rfl, behind, hhost, rfl⟩

theorem ipcReadL {behind : List UInt8} (h : Reading link pending)
    (hhost : link.host.Holds behind) :
    (link.ipcReadL).1 = (behind.take streamBufSize).length ∧
      Reading (link.ipcReadL).2 behind := by
  have hgot := hhost.readL_eq streamBufSize
  have hread := of_answer (link.host.readL streamBufSize).1 h.length_iData (by
    rw [hgot, List.length_take]
    exact Nat.min_le_left _ _) (hhost.readL streamBufSize)
  refine ⟨congrArg List.length hgot, ?_⟩
  rwa [hgot, List.take_append_drop, ← hgot] at hread

theorem takeRead (h : Reading link pending) (left : Nat) :
    (link.takeRead left).1 = pending.take (min left (link.buf.rEnd - link.buf.rPtr)) ∧
      Reading (link.takeRead left).2
        (pending.drop (min left (link.buf.rEnd - link.buf.rPtr))) := by
  have hend := h.rEnd_le
  have hle := h.rPtr_le
  have hdata := h.length_iData
  have harea := h.length_readArea
  obtain ⟨behind, hhost, hpending⟩ := h.atServer
  generalize hlen : min left (link.buf.rEnd - link.buf.rPtr) = len
  have hlen_le : len ≤ link.buf.rEnd - link.buf.rPtr := by omega
  constructor
  · show (link.buf.iData.drop link.buf.rPtr).take (min left (link.buf.rEnd - link.buf.rPtr)) = _
    rw [hlen, ← hpending, List.take_append_of_le_length (by omega), RFavouritesBuf.readArea,
      List.take_take, Nat.min_eq_left hlen_le]
  · have hptr : (link.takeRead left).2.buf.rPtr = link.buf.rPtr + len := by
      rw [← hlen]
      rfl
    refine ⟨hdata, ?_, hend, h.wPtr_eq, h.wEnd_eq, behind, hhost, ?_⟩
    · rw [hptr]
      show link.buf.rPtr + len ≤ link.buf.rEnd
      omega
    · rw [← hpending, List.drop_append_of_le_length (by omega), RFavouritesBuf.readArea, hptr]
      show (link.buf.iData.drop (link.buf.rPtr + len)).take (link.buf.rEnd - (link.buf.rPtr + len))
        ++ behind = _
      rw [RFavouritesBuf.readArea, List.drop_take, List.drop_drop, Nat.sub_add_eq]

/-- A read of bytes that are there ends with them. In the first round the area may be empty;
behind it every round has data in the area and moves a byte. -/
theorem readRounds (rounds : Nat) : ∀ (left : Nat) {link : Link} {pending : List UInt8},
    Reading link pending → left ≤ pending.length →
    (left < rounds ∨ left ≤ rounds ∧ link.buf.rPtr < link.buf.rEnd) → 0 < left →
    (link.readRounds rounds left).1 = pending.take left ∧
      Reading (link.readRounds rounds left).2 (pending.drop left) := by
  induction rounds with
  | zero =>
      intro left link pending h hle hrounds hpos
      omega
  | succ rounds ih =>
      intro left link pending h hle hrounds hpos
      obtain ⟨hgot, htaken⟩ := h.takeRead left
      have hlen : (link.takeRead left).1.length = min left (link.buf.rEnd - link.buf.rPtr) := by
        rw [hgot, List.length_take]
        omega
      have hptr : (link.takeRead left).2.buf.rPtr
          = link.buf.rPtr + min left (link.buf.rEnd - link.buf.rPtr) := rfl
      have hend : (link.takeRead left).2.buf.rEnd = link.buf.rEnd := rfl
      have hrPtr := h.rPtr_le
      rw [Link.readRounds]
      generalize link.takeRead left = taken at *
      obtain ⟨got, link₁⟩ := taken
      simp only at hgot htaken hlen hptr hend ⊢
      rcases Nat.eq_zero_or_pos (left - got.length) with hdone | hmore
      · rw [if_pos hdone]
        have hleft : min left (link.buf.rEnd - link.buf.rPtr) = left := by omega
        rw [hleft] at hgot htaken
        exact ⟨hgot, htaken⟩
      · -- the area is empty now, and the server has data
        rw [if_neg (Nat.ne_of_gt hmore)]
        obtain ⟨behind, hhost, hpending⟩ := htaken.atServer
        have harea : link₁.buf.readArea = [] := by
          apply List.eq_nil_of_length_eq_zero
          rw [htaken.length_readArea, hptr, hend]
          omega
        rw [harea, List.nil_append] at hpending
        obtain ⟨hcount, hread⟩ := htaken.ipcReadL hhost
        rw [hpending, ← hlen] at hread
        have hbehind : behind.length = pending.length - got.length := by
          rw [hpending, hlen, List.length_drop]
        have hmany : (link₁.ipcReadL).1 ≠ 0 := by
          rw [hcount, List.length_take, streamBufSize]
          omega
        rw [Link.underflowL, if_neg hmany]
        have hnext : link₁.ipcReadL.2.buf.rPtr < link₁.ipcReadL.2.buf.rEnd :=
          Nat.pos_of_ne_zero hmany
        obtain ⟨hrest, hfinal⟩ := ih (left - got.length) hread (by
          rw [List.length_drop]
          omega) (.inr ⟨by omega, hnext⟩) hmore
        rw [List.drop_drop] at hfinal
        have hsum : got.length + (left - got.length) = left := by omega
        rw [hsum] at hfinal
        have hfirst : pending.take got.length = got := by rw [hlen, ← hgot]
        refine ⟨?_, hfinal⟩
        calc got ++ (link₁.ipcReadL.2.readRounds rounds (left - got.length)).1
            = pending.take got.length ++ (pending.drop got.length).take (left - got.length) := by
              rw [hrest, hfirst]
          _ = pending.take left := by rw [← List.take_add, hsum]

theorem readL {n : Nat} (h : Reading link pending) (hle : n ≤ pending.length) :
    (link.readL n).1 = pending.take n ∧ Reading (link.readL n).2 (pending.drop n) := by
  rw [Link.readL]
  rcases Nat.eq_zero_or_pos n with hzero | hpos
  · rw [if_pos hzero, hzero]
    exact ⟨rfl, h⟩
  · rw [if_neg (Nat.ne_of_gt hpos)]
    exact readRounds (n + 1) n h hle (.inl (Nat.lt_succ_self n)) hpos

end Reading

theorem serves_streamReadL : Serves Link.streamReadL Reading := by
  intro n link pending h hle
  obtain ⟨hgot, hread⟩ := h.readL hle
  refine ⟨(link.readL n).2, ?_, hread⟩
  have hlen : ¬ (link.readL n).1.length < n := by
    rw [hgot, List.length_take]
    omega
  rw [← hgot]
  exact if_neg hlen

theorem reading_openHandle (raw : Vector UInt8 streamBufSize) {host : SrvBuf}
    {pending : List UInt8} (h : host.Holds pending) (hnew : host.readMark = 0) :
    Reading (Link.openHandle raw host) pending := by
  obtain ⟨hsent, hhost⟩ := h.newStreamL hnew
  have hraw : raw.toList.length = streamBufSize := raw.length_toList
  rw [Link.openHandle]
  generalize newStreamL host = opened at *
  obtain ⟨sent, host₁⟩ := opened
  simp only at hsent hhost ⊢
  have hpending : sent ++ pending.drop streamBufSize = pending := by
    rw [hsent, List.take_append_drop]
  rw [← hpending]
  rcases Nat.eq_zero_or_pos sent.length with hzero | hpos
  · rw [if_pos hzero, List.eq_nil_of_length_eq_zero hzero, List.nil_append]
    exact .idle hraw hhost
  · rw [if_neg (Nat.ne_of_gt hpos)]
    refine .of_answer _ hraw ?_ hhost
    rw [hsent, List.length_take]
    exact Nat.min_le_left _ _

/-! ## A client that writes -/

/-- The server will read `pending` once the stream is committed: what it has, and behind that what
the client has written into its area. There is no unread data in the area. -/
structure Writing (link : Link) (pending : List UInt8) : Prop where
  length_iData : link.buf.iData.length = streamBufSize
  rPtr_eq : link.buf.rPtr = link.buf.rEnd
  wPtr_le : link.buf.wPtr ≤ link.buf.wEnd
  wEnd_le : link.buf.wEnd ≤ streamBufSize
  atServer : ∃ sent, link.host.Holds sent ∧ sent ++ link.buf.iData.take link.buf.wPtr = pending

/-- A client that has read everything can write on the same stream. -/
theorem Reading.writing {link : Link} (h : Reading link []) : Writing link [] := by
  obtain ⟨behind, hhost, hpending⟩ := h.atServer
  obtain ⟨harea, hbehind⟩ := List.append_eq_nil_iff.mp hpending
  have hlen := h.length_readArea
  have hle := h.rPtr_le
  rw [harea, List.length_nil] at hlen
  refine ⟨h.length_iData, by omega, ?_, ?_, [], hbehind ▸ hhost, ?_⟩
  · rw [h.wPtr_eq]
    exact Nat.zero_le _
  · rw [h.wEnd_eq]
    exact Nat.zero_le _
  · rw [h.wPtr_eq]
    rfl

namespace Writing

variable {link : Link} {pending : List UInt8}

theorem putWrite (h : Writing link pending) (block : List UInt8) :
    (link.putWrite block).1 = block.drop (min block.length (link.buf.wEnd - link.buf.wPtr)) ∧
      Writing (link.putWrite block).2
        (pending ++ block.take (min block.length (link.buf.wEnd - link.buf.wPtr))) := by
  have hdata := h.length_iData
  have hle := h.wPtr_le
  have hend := h.wEnd_le
  obtain ⟨sent, hhost, hpending⟩ := h.atServer
  refine ⟨rfl, ?_⟩
  generalize hlen : min block.length (link.buf.wEnd - link.buf.wPtr) = len
  have hblock : (block.take len).length = len := by
    rw [List.length_take]
    omega
  have hput : (link.putWrite block).2 = { link with
      buf := { link.buf with
        iData := overwrite link.buf.iData link.buf.wPtr (block.take len)
        wPtr := link.buf.wPtr + len } } := by
    rw [← hlen]
    rfl
  rw [hput]
  refine ⟨(length_overwrite (by omega)).trans hdata, h.rPtr_eq, ?_, hend, sent, hhost, ?_⟩
  · show link.buf.wPtr + len ≤ link.buf.wEnd
    omega
  · have htake := take_overwrite (block.take len)
      (show link.buf.wPtr ≤ link.buf.iData.length by omega)
    rw [hblock] at htake
    show sent ++ (overwrite link.buf.iData link.buf.wPtr (block.take len)).take
      (link.buf.wPtr + len) = _
    rw [htake, ← List.append_assoc, hpending]

/-- What the server has after everything has been sent. -/
theorem holds_ipcWriteL (h : Writing link pending) : link.ipcWriteL.host.Holds pending := by
  obtain ⟨sent, hhost, hpending⟩ := h.atServer
  show (if link.buf.wPtr = 0 then link.host
    else link.host.writeL (link.buf.iData.take link.buf.wPtr)).Holds pending
  rcases Nat.eq_zero_or_pos link.buf.wPtr with hzero | hpos
  · rw [if_pos hzero]
    rw [hzero, List.take_zero, List.append_nil] at hpending
    rwa [← hpending]
  · rw [if_neg (Nat.ne_of_gt hpos), ← hpending]
    exact SrvBuf.appends_writeL _ _ _ hhost

theorem overflowL (h : Writing link pending) : Writing link.overflowL pending :=
  ⟨h.length_iData, rfl, Nat.zero_le _, le_refl _, pending, h.holds_ipcWriteL,
    List.append_nil pending⟩

/-- A write ends with all of the block written. In the first round there may be no room in the
area; behind it every round has the whole area and moves a byte. -/
theorem writeRounds (rounds : Nat) : ∀ (block : List UInt8) {link : Link} {pending : List UInt8},
    Writing link pending →
    (block.length < rounds ∨ block.length ≤ rounds ∧ link.buf.wPtr < link.buf.wEnd) →
    0 < block.length → Writing (link.writeRounds rounds block) (pending ++ block) := by
  induction rounds with
  | zero =>
      intro block link pending h hrounds hpos
      omega
  | succ rounds ih =>
      intro block link pending h hrounds hpos
      obtain ⟨hrest, hput⟩ := h.putWrite block
      have hle := h.wPtr_le
      rw [Link.writeRounds]
      generalize link.putWrite block = put at *
      obtain ⟨rest, link₁⟩ := put
      simp only at hrest hput ⊢
      generalize hlen : min block.length (link.buf.wEnd - link.buf.wPtr) = len at *
      have hlength : rest.length = block.length - len := by rw [hrest, List.length_drop]
      cases rest with
      | nil =>
          rw [if_pos rfl]
          have hall : block.take len = block := by
            apply List.take_of_length_le
            rw [List.length_nil] at hlength
            omega
          rwa [hall] at hput
      | cons b rest =>
          rw [if_neg (List.cons_ne_nil b rest)]
          rw [List.length_cons] at hlength
          have hnext := ih (b :: rest) hput.overflowL
            (.inr ⟨by rw [List.length_cons]; omega, Nat.zero_lt_succ _⟩)
            (by rw [List.length_cons]; omega)
          rwa [List.append_assoc, hrest, List.take_append_drop, ← hrest] at hnext

theorem writeL (h : Writing link pending) (block : List UInt8) :
    Writing (link.writeL block) (pending ++ block) := by
  rw [Link.writeL]
  cases block with
  | nil =>
      rw [if_pos rfl, List.append_nil]
      exact h
  | cons b block =>
      rw [if_neg (List.cons_ne_nil b block)]
      exact writeRounds _ (b :: block) h (.inl (Nat.lt_succ_self _)) (Nat.zero_lt_succ _)

/-- The commit of a stream leaves the client as it was opened. -/
theorem doSynchL (h : Writing link pending) :
    ∃ link', link.doSynchL = some link' ∧ link'.host.Holds pending ∧
      ∀ {host : SrvBuf} {behind : List UInt8}, host.Holds behind →
        Reading { link' with host } behind := by
  refine ⟨{ link.ipcWriteL with buf := ⟨link.buf.iData, 0, 0, 0, 0⟩ }, ?_, h.holds_ipcWriteL, ?_⟩
  · rw [Link.doSynchL, if_neg (not_not_intro h.rPtr_eq)]
    rfl
  · intro host behind hhost
    exact .idle h.length_iData hhost

end Writing

theorem appends_writeL : Appends Link.writeL Writing :=
  fun block _ _ h => h.writeL block

theorem writing_openStream (raw : Vector UInt8 streamBufSize) :
    Writing (Link.openStream raw) [] := by
  obtain ⟨-, hhost⟩ := SrvBuf.holds_new.newStreamL rfl
  exact ⟨raw.length_toList, rfl, le_refl 0, Nat.zero_le _, [], hhost, rfl⟩

/-! ## Requests -/

theorem liftStream_ok {α : Type} {x : Except StreamError α} {a : α} (h : x = .ok a) :
    liftStream x = .ok a := by
  rw [h]
  rfl

/-- The client reads what the server has written to a new stream, and nothing is left. -/
theorem receive_eq {α : Type} (raw : Vector UInt8 streamBufSize) {blocks : List (List UInt8)}
    {p : ReadProg α} {a : α} (hp : Reads p.toReader blocks.flatten a) :
    ∃ link, receive raw blocks p = .ok (a, link) ∧ Reading link [] := by
  have hmark : ∀ (blocks : List (List UInt8)) (host : SrvBuf), host.readMark = 0 →
      (writeAll SrvBuf.writeL blocks host).readMark = 0 := by
    intro blocks
    induction blocks with
    | nil => exact fun host h => h
    | cons block blocks ih => exact fun host h => ih _ h
  have hopen := reading_openHandle raw (SrvBuf.holds_writeAll blocks SrvBuf.holds_new)
    (hmark blocks .new rfl)
  rw [List.nil_append, ← List.append_nil blocks.flatten] at hopen
  obtain ⟨link, hrun, hread⟩ := run_of_reads serves_streamReadL hp hopen
  exact ⟨link, liftStream_ok hrun, hread⟩

/-- What the client has sent is at the server, and the client can go on reading. -/
theorem send_eq (blocks : List (List UInt8)) {link : Link} (h : Writing link []) :
    ∃ link', send blocks link = .ok link' ∧ link'.host.Holds blocks.flatten ∧
      ∀ {host : SrvBuf} {behind : List UInt8}, host.Holds behind →
        Reading { link' with host } behind := by
  obtain ⟨link', hsynch, hhost, hnext⟩ := (appends_writeL.writeAll blocks h).doSynchL
  refine ⟨link', ?_, hhost, hnext⟩
  rw [send, hsynch]

/-- The server reads a value that is all of what was sent. -/
theorem serverReads_eq {α : Type} {p : ReadProg α} {blocks : List (List UInt8)} {a : α}
    {host : SrvBuf} (hp : Reads p.toReader blocks.flatten a) (h : host.Holds blocks.flatten) :
    ∃ host', p.run SrvBuf.streamReadL host = .ok (a, host') ∧ host'.Holds [] := by
  rw [← List.append_nil blocks.flatten] at h
  exact run_of_reads SrvBuf.serves_streamReadL hp h

/-- The server works on the item that the client has sent, and the client reads from the same
stream what the server appends to it, to its end. -/
theorem sendItem_eq (raw : Vector UInt8 streamBufSize)
    (operation : CFavouritesItemImpl → Except Int CFavouritesItemImpl)
    (aItem : CFavouritesItemImpl) :
    (∃ err, operation aItem = .error err ∧
      sendItem raw operation aItem = .error (.server err)) ∨
    ∃ stored link, operation aItem = .ok stored ∧ Reading link [] ∧
      sendItem raw operation aItem = .ok (aItem.withUpdateDelta stored, link) := by
  obtain ⟨link, hsend, hhost, hnext⟩ := send_eq aItem.externalizeL (writing_openStream raw)
  obtain ⟨host, hserver, hhost'⟩ :=
    serverReads_eq (CFavouritesItemImpl.reads_internalizeL aItem) hhost
  have hitem : liftStream (CFavouritesItemImpl.internalizeL.run SrvBuf.streamReadL link.host) =
      .ok (aItem, host) := liftStream_ok hserver
  cases hop : operation aItem with
  | error err =>
      refine .inl ⟨err, rfl, ?_⟩
      rw [sendItem, hsend]
      show (liftStream (CFavouritesItemImpl.internalizeL.run SrvBuf.streamReadL link.host)).bind _ =
        _
      rw [hitem]
      dsimp only [Except.bind]
      rw [hop]
  | ok stored =>
      right
      have hdelta := hnext (SrvBuf.holds_writeAll stored.externalizeUpdateDeltaL hhost')
      rw [List.nil_append, ← List.append_nil (List.flatten _)] at hdelta
      obtain ⟨link', hread, hend⟩ := run_of_reads serves_streamReadL
        (aItem.reads_internalizeUpdateDeltaL stored) hdelta
      refine ⟨stored, link', rfl, hend, ?_⟩
      rw [sendItem, hsend]
      show (liftStream (CFavouritesItemImpl.internalizeL.run SrvBuf.streamReadL link.host)).bind _ =
        _
      rw [hitem]
      dsimp only [Except.bind]
      rw [hop]
      exact liftStream_ok hread

/-- The server reads the map with the access points of the client, on a stream that went the other
way before. -/
theorem exchangeApMap_eq (raw : Vector UInt8 streamBufSize) (map : CArray TUidMapping)
    (mapAccessPoint : BitVec 32 → Option (BitVec 32)) :
    exchangeApMap raw map mapAccessPoint = .ok (mapAccessPoints mapAccessPoint map.elements) := by
  obtain ⟨link, hreceive, hread⟩ := receive_eq raw (reads_uidMapInternalizeL map.count_lt)
  rw [exchangeApMap, hreceive]
  show (if map.elements = [] then _ else _) = _
  cases hempty : decide (map.elements = []) with
  | true =>
      rw [if_pos (of_decide_eq_true hempty), of_decide_eq_true hempty]
      rfl
  | false =>
      rw [if_neg (of_decide_eq_false hempty)]
      have hlt : (mapAccessPoints mapAccessPoint map.elements).length < 2147483648 := by
        rw [mapAccessPoints, List.length_map]
        exact map.count_lt
      obtain ⟨link', hsend, hhost, -⟩ := send_eq
        (uidMapExternalizeL (mapAccessPoints mapAccessPoint map.elements)) hread.writing
      obtain ⟨host, hserver, -⟩ := serverReads_eq (reads_uidMapInternalizeL hlt) hhost
      rw [hsend]
      show (liftStream (uidMapInternalizeL.run SrvBuf.streamReadL link'.host)).bind _ = _
      rw [liftStream_ok hserver]
      rfl

/-- Every item, list of items and list of uids reaches the client as the server has written it; an
item that the client sends reaches the server as it is, and the client reads exactly the update
delta that the server appends. Nothing is left on any of the streams. -/
theorem transfer_exact (raw : Vector UInt8 streamBufSize) :
    (∀ item : CFavouritesItemImpl, ∃ link,
      getItem raw item = .ok (item, link) ∧ Reading link []) ∧
    (∀ (items : CArray CFavouritesItemImpl) (aItemList : List CFavouritesItemImpl), ∃ link,
      getAll raw items aItemList = .ok (aItemList ++ items.elements, link) ∧ Reading link []) ∧
    (∀ (uids : CArray (BitVec 32)) (aUids : List (BitVec 32)), ∃ link,
      getUids raw uids aUids = .ok (aUids ++ uids.elements, link) ∧ Reading link []) ∧
    ∀ (operation : CFavouritesItemImpl → Except Int CFavouritesItemImpl)
      (aItem : CFavouritesItemImpl),
      (∃ err, operation aItem = .error err ∧
        sendItem raw operation aItem = .error (.server err)) ∨
      ∃ stored link, operation aItem = .ok stored ∧ Reading link [] ∧
        sendItem raw operation aItem = .ok (aItem.withUpdateDelta stored, link) :=
  ⟨fun item => receive_eq raw item.reads_internalizeL,
    fun items aItemList => receive_eq raw (reads_itemListInternalizeL items aItemList),
    fun uids aUids => receive_eq raw (reads_uidsInternalizeL uids aUids),
    fun operation aItem => sendItem_eq raw operation aItem⟩

end SymbianWeb.Favourites.Streams
