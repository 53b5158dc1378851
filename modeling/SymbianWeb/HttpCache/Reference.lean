import SymbianWeb.HttpCache.Machine

/-!
# A platform to run the model on

ASCII case folding, the CRC-32 of IEEE 802.3 without inversion, as `Mem::Crc32` computes it, and
64-bit reals for the integers they represent exactly. Nothing general is proved with it: the
counterexamples and witnesses of the following modules run the model on it.
-/

set_option autoImplicit false

namespace SymbianWeb.HttpCache.Reference

open ByteStream FaultState

/-- Folding of the ASCII letters. -/
def fold8 (c : UInt8) : UInt8 := if 0x41 ≤ c ∧ c ≤ 0x5a then c + 0x20 else c

/-- Eight rounds of the reflected polynomial. -/
def crcRound (c : UInt32) : Nat → UInt32
  | 0 => c
  | n + 1 => crcRound (if c &&& 1 = 1 then (c >>> 1) ^^^ 0xedb88320 else c >>> 1) n

/-- The checksum, starting at 0. -/
def crc32 (d : Des8) : UInt32 :=
  d.foldl (fun c b => crcRound ((c ^^^ b.toUInt32) &&& 0xff) 8 ^^^ (c >>> 8)) 0

/-- The bits of a real with an integer value below `2 ^ 53`. -/
def realBits (v : Int) : Nat :=
  if v = 0 then 0
  else
    let e := Nat.log2 v.natAbs
    (if v < 0 then 2 ^ 63 else 0) + (1023 + e) * 2 ^ 52 + (v.natAbs - 2 ^ e) * 2 ^ (52 - e)

/-- The integer value of the bits of a real. -/
def realValue (bits : Nat) : Int :=
  if bits % 2 ^ 63 = 0 then 0
  else
    let e := bits / 2 ^ 52 % 2048 - 1023
    let magnitude : Nat := (2 ^ 52 + bits % 2 ^ 52) / 2 ^ (52 - e)
    if 2 ^ 63 ≤ bits then -(magnitude : Int) else magnitude

/-- The platform. -/
scoped instance platform : Platform where
  fold8 := fold8
  crc32 := crc32
  writeReal64 v := leBytes 8 (realBits v)
  readReal64 bytes := realValue (leValue bytes)
  writeReal64_length _ := length_leBytes ..

/-- An environment in which everything works. -/
def io : Io where
  volumeFree := some 1000000
  replaceOk := true
  writeOk _ := true
  alloc _ := true

/-- An environment in which everything works. -/
def env : Env where
  clock := ⟨5, 0⟩
  io _ := io
  freeMem := 1000000
  appendErr := 0
  indexOk := true
  hashMapOk := true

/-- A cacheable 200 response that is always newer than what is cached. -/
def response (uri headers : Des8) : Response where
  uri := uri
  isCacheable := true
  protectedEntry := false
  statusCode := eOk
  headers := headers
  cacheNeedsUpdate _ := true
  mergeHeaders h := h

/-- A cache of 1000 bytes in the directory `\`, without postponed writes. -/
def construct (files : Des16 → Option Des8) (indexFile : Option Des8) : Construct where
  aSize := 1000
  aDirectory := [kPathDelimiter]
  aCriticalLevel := 0
  aPostpone := none
  files := files
  indexFile := indexFile
  env := env

/-- An empty cache. -/
abbrev emptyCache : Construct := construct (fun _ => none) none

/-- A complete entry with its body on disk, as another process has it in its table. -/
def stored (uri : Des8) (lastAccessed : Int) (ref : UInt16) (bodySize : Nat) (headers : Des8) :
    CHttpCacheEntry :=
  { CHttpCacheEntry.newLC uri with
    iFileName := generateNameLC uri [kPathDelimiter]
    iState := .eCacheComplete
    iLastAccessed := lastAccessed
    iRef := ref
    iBodySize := bodySize
    iHeaderSize := UInt16.ofNat headers.length
    iHeaderBuffer := some headers }

/-- The index file another process writes. -/
def indexOf (entries : List CHttpCacheEntry) : Option Des8 := externalizeL [kPathDelimiter] entries

/-- Files with these contents. -/
def filesOf : List (Des16 × Des8) → Des16 → Option Des8
  | [], _ => none
  | (name, body) :: rest, aName => if aName = name then some body else filesOf rest aName

/-- A response with one body part. -/
def responseOps (uri headers body : Des8) : List Op :=
  [.receivedResponseHeadersL env 0 (response uri headers), .receivedResponseBodyDataL env 0 body,
    .responseComplete env 0]

/-- An empty cache that postpones its writes. -/
abbrev postponingCache : Construct :=
  { emptyCache with aPostpone := some (.newL 0 0) }

/-- A response is saved, the timer expires, and the handler runs. -/
def postponedOps (env : Env) : List Op :=
  responseOps [1] [2, 3] [7] ++ [.writeTimeout, .fileWriteRunL env false]

/-- The state after `ConstructL` and a list of operations. -/
def stateAfter (c : Construct) (ops : List Op) : Option CacheState :=
  (constructL c.env c.initial).bind fun p => (runOps ops p.2).map Prod.snd

/-- Operations that all succeed lead to a state of a run. -/
theorem exists_run_of_eval' {β : Type} {c : Construct} {ops : List Op} {f : CacheState → β}
    {b : β} (ok : Op → CacheState → Prop) (hok : ∀ op ∈ ops, ∀ s, ok op s)
    (h : (stateAfter c ops).map f = some b) : ∃ s, Reaches Op.run c.Starts ok s ∧ f s = b := by
  obtain ⟨s, hafter, hf⟩ := Option.map_eq_some_iff.1 h
  obtain ⟨⟨⟨⟩, s₀⟩, hstart, hrun⟩ := Option.bind_eq_some_iff.1 hafter
  obtain ⟨⟨a, s₁⟩, hops, rfl⟩ := Option.map_eq_some_iff.1 hrun
  have hreached : Reaches Op.run c.Starts ok s₀ := .start hstart
  exact ⟨s₁, hreached.forEach hok hops, hf⟩

theorem exists_run_of_eval {β : Type} {c : Construct} {ops : List Op} {f : CacheState → β}
    {b : β} (h : (stateAfter c ops).map f = some b) :
    ∃ s, Reaches Op.run c.Starts (fun _ _ => True) s ∧ f s = b :=
  exists_run_of_eval' _ (fun _ _ _ => trivial) h

end SymbianWeb.HttpCache.Reference
