import SymbianWeb.Favourites.ItemStreams

/-!
# The stream between client and server

The server holds a buffer in memory with a read mark and a write mark. The client has an area of
512 bytes with a read area and a write area in it, and moves data between the area and the buffer
of the server by requests. The first bytes of a stream that the server has filled come with the
answer to the open request.

The buffers of the class library are modelled by what is documented of them: a read or a write
starts at its mark and moves it, a stream buffer copies to and from its areas and calls
`underflowL` and `overflowL` when they are used up.
-/

set_option autoImplicit false

namespace SymbianWeb.Favourites.Streams

open ByteStream ReadProg

/-- The size of the area of the client. -/
def streamBufSize : Nat := 512

/-- `block` in place of what is at `pos`, as far as there is something. -/
def overwrite (data : List UInt8) (pos : Nat) (block : List UInt8) : List UInt8 :=
  data.take pos ++ block ++ data.drop (pos + block.length)

/-! ## Server side -/

/-- The buffer of the server and its marks. -/
structure SrvBuf where
  data : List UInt8
  readMark : Nat
  writeMark : Nat

namespace SrvBuf

def new : SrvBuf := ⟨[], 0, 0⟩

/-- What is behind the read mark. -/
def unread (host : SrvBuf) : List UInt8 := host.data.drop host.readMark

/-- The next bytes, `n` of them or as many as there are. -/
def readL (n : Nat) (host : SrvBuf) : List UInt8 × SrvBuf :=
  let got := host.unread.take n
  (got, { host with readMark := host.readMark + got.length })

def writeL (block : List UInt8) (host : SrvBuf) : SrvBuf :=
  { host with
    data := overwrite host.data host.writeMark block
    writeMark := host.writeMark + block.length }

/-- A read stream over the buffer: fewer bytes than asked for are an error. -/
def streamReadL (n : Nat) : StateT SrvBuf (Except StreamError) (List UInt8) := fun host =>
  let (got, host) := host.readL n
  if got.length < n then .error .eof else .ok (got, host)

end SrvBuf

/-- What the session sends with the answer to an open request, and the buffer after that. -/
def newStreamL (host : SrvBuf) : List UInt8 × SrvBuf :=
  let len := min host.data.length streamBufSize
  if len = 0 then ([], host) else host.readL len

/-! ## Client side -/

/-- The area of the client: the read area is from `rPtr` to `rEnd` and the write area from `wPtr`
to `wEnd`; what is before `wPtr` has been written and not been sent. -/
structure RFavouritesBuf where
  iData : List UInt8
  rPtr : Nat
  rEnd : Nat
  wPtr : Nat
  wEnd : Nat

/-- A stream: the area of the client and the buffer of the server. -/
structure Link where
  buf : RFavouritesBuf
  host : SrvBuf

namespace Link

/-- Opens an empty stream. Nothing is known of the memory of the area. -/
def openStream (raw : Vector UInt8 streamBufSize) : Link :=
  ⟨⟨raw.toList, 0, 0, 0, 0⟩, (newStreamL .new).2⟩

/-- Opens a stream that the server has filled. -/
def openHandle (raw : Vector UInt8 streamBufSize) (host : SrvBuf) : Link :=
  let (sent, host) := newStreamL host
  if sent.length = 0 then ⟨⟨raw.toList, 0, 0, 0, 0⟩, host⟩
  else ⟨⟨overwrite raw.toList 0 sent, 0, sent.length, 0, 0⟩, host⟩

/-- Reads from the server into the area. -/
def ipcReadL (link : Link) : Nat × Link :=
  let (got, host) := link.host.readL streamBufSize
  (got.length, ⟨⟨overwrite link.buf.iData 0 got, 0, got.length, 0, 0⟩, host⟩)

/-- Sends what has been written, and makes all of the area the write area. -/
def ipcWriteL (link : Link) : Link :=
  let host :=
    if link.buf.wPtr = 0 then link.host else link.host.writeL (link.buf.iData.take link.buf.wPtr)
  ⟨⟨link.buf.iData, 0, 0, 0, streamBufSize⟩, host⟩

def underflowL (link : Link) : Nat × Link := link.ipcReadL

def overflowL (link : Link) : Link := link.ipcWriteL

/-- Sends what has been written and empties both areas. Unread data cannot be given back. -/
def doSynchL (link : Link) : Option Link :=
  if link.buf.rPtr ≠ link.buf.rEnd then none
  else
    let link := link.ipcWriteL
    some { link with buf := ⟨link.buf.iData, 0, 0, 0, 0⟩ }

/-- Takes up to `left` bytes from the read area. -/
def takeRead (left : Nat) (link : Link) : List UInt8 × Link :=
  let len := min left (link.buf.rEnd - link.buf.rPtr)
  ((link.buf.iData.drop link.buf.rPtr).take len,
    { link with buf := { link.buf with rPtr := link.buf.rPtr + len } })

/-- Rounds of a read that has `left` bytes to go. A round behind the first one moves a byte, so
that one more of them than there are bytes to read is enough. -/
def readRounds : Nat → Nat → Link → List UInt8 × Link
  | 0, _, link => ([], link)
  | rounds + 1, left, link =>
      let (got, link) := link.takeRead left
      if left - got.length = 0 then (got, link)
      else
        let (more, link) := link.underflowL
        if more = 0 then (got, link)
        else
          let (rest, link) := readRounds rounds (left - got.length) link
          (got ++ rest, link)

/-- Reads up to `n` bytes; reading no bytes does nothing. -/
def readL (n : Nat) (link : Link) : List UInt8 × Link :=
  if n = 0 then ([], link) else readRounds (n + 1) n link

/-- A read stream over the link: fewer bytes than asked for are an error. -/
def streamReadL (n : Nat) : StateT Link (Except StreamError) (List UInt8) := fun link =>
  let (got, link) := link.readL n
  if got.length < n then .error .eof else .ok (got, link)

/-- Puts as much of the block into the write area as fits, and returns the rest of it. -/
def putWrite (block : List UInt8) (link : Link) : List UInt8 × Link :=
  let len := min block.length (link.buf.wEnd - link.buf.wPtr)
  (block.drop len,
    { link with
      buf := { link.buf with
        iData := overwrite link.buf.iData link.buf.wPtr (block.take len)
        wPtr := link.buf.wPtr + len } })

/-- Rounds of a write. A round behind the first one moves a byte. -/
def writeRounds : Nat → List UInt8 → Link → Link
  | 0, _, link => link
  | rounds + 1, block, link =>
      let (rest, link) := link.putWrite block
      if rest = [] then link else writeRounds rounds rest link.overflowL

/-- Writes a block; writing no bytes does nothing. -/
def writeL (block : List UInt8) (link : Link) : Link :=
  if block = [] then link else writeRounds (block.length + 1) block link

end Link

/-! ## Requests -/

/-- Ways a request can fail: in the stream, at a stream that has unread data, or with the error
that the operation of the server has left with. -/
inductive RequestError where
  | stream (e : StreamError)
  | notSupported
  | server (err : Int)

/-- Runs a program that reads from the stream. -/
def liftStream {α : Type} : Except StreamError α → Except RequestError α
  | .ok a => .ok a
  | .error e => .error (.stream e)

/-- A value that the server writes to a new stream and the client reads from it. -/
def receive {α : Type} (raw : Vector UInt8 streamBufSize) (blocks : List (List UInt8))
    (p : ReadProg α) : Except RequestError (α × Link) :=
  liftStream (p.run Link.streamReadL (Link.openHandle raw (writeAll SrvBuf.writeL blocks .new)))

/-- Writes to a stream of the client and commits it. -/
def send (blocks : List (List UInt8)) (link : Link) : Except RequestError Link :=
  match (writeAll Link.writeL blocks link).doSynchL with
  | none => .error .notSupported
  | some link => .ok link

/-- Get an item. -/
def getItem (raw : Vector UInt8 streamBufSize) (item : CFavouritesItemImpl) :
    Except RequestError (CFavouritesItemImpl × Link) :=
  receive raw item.externalizeL CFavouritesItemImpl.internalizeL

/-- Get all items, behind those that are in the list of the caller. -/
def getAll (raw : Vector UInt8 streamBufSize) (items : CArray CFavouritesItemImpl)
    (aItemList : List CFavouritesItemImpl) :
    Except RequestError (List CFavouritesItemImpl × Link) :=
  receive raw (itemListExternalizeL items.elements) (itemListInternalizeL aItemList)

/-- Get uids, behind those that are in the list of the caller. -/
def getUids (raw : Vector UInt8 streamBufSize) (uids : CArray (BitVec 32))
    (aUids : List (BitVec 32)) : Except RequestError (List (BitVec 32) × Link) :=
  receive raw (uidsExternalizeL uids.elements) (uidsInternalizeL aUids)

/-- Add or update an item, or set it as special item: the server reads it, runs `operation` on it
and appends the update delta of the item that it has stored. -/
def sendItem (raw : Vector UInt8 streamBufSize)
    (operation : CFavouritesItemImpl → Except Int CFavouritesItemImpl)
    (aItem : CFavouritesItemImpl) : Except RequestError (CFavouritesItemImpl × Link) := do
  let link ← send aItem.externalizeL (.openStream raw)
  let (item, host) ← liftStream (CFavouritesItemImpl.internalizeL.run SrvBuf.streamReadL link.host)
  match operation item with
  | .error err => .error (.server err)
  | .ok item =>
      let host := writeAll SrvBuf.writeL item.externalizeUpdateDeltaL host
      liftStream (aItem.internalizeUpdateDeltaL.run Link.streamReadL { link with host })

/-- The map of access points with the access points that the mapper of the client has. -/
def mapAccessPoints (mapAccessPoint : BitVec 32 → Option (BitVec 32)) (apMap : List TUidMapping) :
    List TUidMapping :=
  apMap.map fun m => { m with iUid2 := (mapAccessPoint m.iUid2).getD m.iUid2 }

/-- Restore the factory settings: the client reads the map of access points, maps them, and sends
the map back on the stream that it has read it from. The result is what the server reads; there
is no second request for an empty map. -/
def exchangeApMap (raw : Vector UInt8 streamBufSize) (map : CArray TUidMapping)
    (mapAccessPoint : BitVec 32 → Option (BitVec 32)) :
    Except RequestError (List TUidMapping) := do
  let (apMap, link) ← receive raw (uidMapExternalizeL map.elements) uidMapInternalizeL
  if apMap = [] then pure []
  else
    let link ← send (uidMapExternalizeL (mapAccessPoints mapAccessPoint apMap)) link
    let (received, _) ← liftStream (uidMapInternalizeL.run SrvBuf.streamReadL link.host)
    pure received

end SymbianWeb.Favourites.Streams
