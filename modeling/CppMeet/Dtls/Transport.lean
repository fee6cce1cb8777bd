import CppMeet.Lib.Run
import Mathlib.Data.List.Basic

/-!
# The DTLS transport

`DtlsTransport` puts an SSL object between two memory BIOs: what arrives from the network is fed
into the read BIO, and what the SSL object has written into the write BIO is fetched and sent. Both
the memory BIO (`MemBio`) and the SSL library (`SslLib`) are parameters. Of a memory BIO it is
assumed that it holds the bytes written to it until they are read, in order; of a call of the SSL
library that it takes bytes from the front of the read BIO and appends bytes to the write BIO
(`Outcome`), and that it does not have something to read for ever.

Every operation returns the calls it made to the SSL library (`Ran`). Whatever the library does and
however the operations are mixed, every byte passes through once and in order, the library sees two
phases, handshake calls and timeouts until a handshake call succeeds and only data calls from then
on, and each operation returns what its calls are for (`transport_run`).
-/

set_option autoImplicit false

namespace CppMeet.Dtls.Transport

open CppMeet.Lib.Run

universe u v

/-- The memory BIO of the library, with the states of one in `β`, and what is documented of it. -/
structure MemBio (β : Type v) where
  /-- `BIO_new(BIO_s_mem())`, and -1 for an empty read. -/
  new : β
  /-- `BIO_write`. -/
  write : β → (data : List UInt8) → (num : Int32) → β
  /-- `BIO_read` with a buffer of the given size: the bytes read, none when its result is not
  positive, and the BIO after it. -/
  read : β → (num : ℕ) → List UInt8 × β
  /-- The bytes that wait in a BIO. -/
  pending : β → List UInt8
  pending_new : pending new = []
  /-- The first `num` bytes of the data are appended, and nothing when `num` is not positive. -/
  pending_write : ∀ bio data num, num.toInt ≤ data.length →
    pending (write bio data num) = pending bio ++ data.take num.toInt.toNat
  /-- What is read are the first bytes that wait. -/
  pending_read : ∀ bio num, (read bio num).1 ++ pending (read bio num).2 = pending bio
  /-- Nothing is read only when nothing waits. -/
  pending_eq_nil : ∀ bio num, 0 < num → (read bio num).1 = [] → pending bio = []

/-- What one call of the SSL library returns and leaves behind, made with the two BIOs `r` and
`w`. -/
structure Outcome {β : Type v} (bio : MemBio β) (r w : β) (σ : Type u) (α : Type*) where
  ret : α
  ssl : σ
  rbio : β
  wbio : β
  taken : List UInt8
  written : List UInt8
  pending_rbio : bio.pending r = taken ++ bio.pending rbio
  pending_wbio : bio.pending wbio = bio.pending w ++ written

/-- The SSL library over a memory BIO, with the states of an SSL object in `σ`. Every call is given
both BIOs. -/
structure SslLib (σ : Type u) (β : Type v) where
  bio : MemBio β
  /-- `SSL_new`, then `SSL_set_accept_state` or `SSL_set_connect_state`. -/
  new : (isServer : Bool) → σ
  doHandshake : σ → (r w : β) → Outcome bio r w σ Int32
  handleTimeout : σ → (r w : β) → Outcome bio r w σ Int32
  write : σ → (r w : β) → (buf : List UInt8) → (num : Int32) → Outcome bio r w σ Int32
  /-- `SSL_read` with a buffer of the given size, which reads nothing when its result is not
  positive. -/
  read : σ → (r w : β) → (num : ℕ) → Outcome bio r w σ (List UInt8)
  /-- `SSL_export_keying_material`, if it returns 1. -/
  exportKeyingMaterial : σ → (len : ℕ) → (label : List UInt8) → Option (List UInt8)
  /-- How often there is something to read, with what has been fed so far. -/
  unread : σ → β → ℕ
  unread_lt : ∀ s r w num, (read s r w num).ret ≠ [] →
    unread (read s r w num).ssl (read s r w num).rbio < unread s r

/-- `DtlsTransport`, with its SSL object and its two BIOs. -/
structure DtlsTransport (σ : Type u) (β : Type v) where
  isServer : Bool
  ssl : σ
  rbio : β
  wbio : β
  handshakeDone : Bool := false

/-- A call of the SSL library, with its arguments and its result. -/
inductive SslCall where
  | doHandshake (ret : Int32)
  | handleTimeout
  | write (buf : List UInt8) (num : Int32)
  | read (num : ℕ) (ret : List UInt8)
  | exportKeyingMaterial (len : ℕ) (label : List UInt8) (ret : Option (List UInt8))
  deriving DecidableEq, Repr

/-- A call with the bytes that it took from the read BIO and wrote to the write BIO. -/
structure Made where
  call : SslCall
  taken : List UInt8 := []
  written : List UInt8 := []

/-- What an operation of the transport returns, leaves behind and asked of the SSL library. -/
structure Ran (σ : Type u) (β : Type v) (α : Type*) where
  value : α
  transport : DtlsTransport σ β
  calls : List Made := []

/-- The same run with another value. -/
def Ran.map {σ : Type u} {β : Type v} {α α' : Type*} (f : α → α') (r : Ran σ β α) : Ran σ β α' :=
  ⟨f r.value, r.transport, r.calls⟩

/-- "EXTRACTOR-dtls_srtp". -/
def extractorLabel : List UInt8 :=
  [69, 88, 84, 82, 65, 67, 84, 79, 82, 45, 100, 116, 108, 115, 95, 115, 114, 116, 112]

/-- The loop of `pending_send`: the bytes fetched and the BIO after it. -/
def pendingLoop {β : Type v} (bio : MemBio β) (wbio : β) (result : List UInt8) : List UInt8 × β :=
  let read := bio.read wbio 4096
  if read.1 = [] then (result, read.2) else pendingLoop bio read.2 (result ++ read.1)
termination_by (bio.pending wbio).length
decreasing_by
  rename_i hread
  rw [← bio.pending_read wbio 4096, List.length_append]
  exact Nat.lt_add_of_pos_left (List.length_pos_iff.2 hread)

namespace DtlsTransport

variable {σ : Type u} {β : Type v} {α : Type*} (lib : SslLib σ β)

/-- The constructor and an `init` that succeeds. -/
def init (isServer : Bool) : DtlsTransport σ β where
  isServer := isServer
  ssl := lib.new isServer
  rbio := lib.bio.new
  wbio := lib.bio.new

/-- `feed_data`: the bytes are written to the read BIO. -/
def feedData (t : DtlsTransport σ β) (data : List UInt8) : DtlsTransport σ β :=
  { t with rbio := lib.bio.write t.rbio data (.ofNat data.length) }

variable {lib}

/-- The transport after a call of the library. -/
def after (t : DtlsTransport σ β) (o : Outcome lib.bio t.rbio t.wbio σ α) : DtlsTransport σ β :=
  { t with ssl := o.ssl, rbio := o.rbio, wbio := o.wbio }

/-- The record of a call. -/
def made {t : DtlsTransport σ β} (call : SslCall) (o : Outcome lib.bio t.rbio t.wbio σ α) : Made :=
  ⟨call, o.taken, o.written⟩

variable (lib)

/-- `drive_handshake`: one call of the handshake, unless it is done. -/
def driveHandshake (t : DtlsTransport σ β) : Ran σ β Unit :=
  if t.handshakeDone then ⟨(), t, []⟩
  else
    let o := lib.doHandshake t.ssl t.rbio t.wbio
    -- any other value is taken for a handshake that still goes on
    ⟨(), if o.ret = 1 then { t.after o with handshakeDone := true } else t.after o,
      [made (.doHandshake o.ret) o]⟩

/-- `drive_timeout`: the library may retransmit, unless the handshake is done. -/
def driveTimeout (t : DtlsTransport σ β) : Ran σ β Unit :=
  if t.handshakeDone then ⟨(), t, []⟩
  else
    let o := lib.handleTimeout t.ssl t.rbio t.wbio
    ⟨(), t.after o, [made .handleTimeout o]⟩

/-- `pending_send`: everything in the write BIO. -/
def pendingSend (t : DtlsTransport σ β) : List UInt8 × DtlsTransport σ β :=
  let read := pendingLoop lib.bio t.wbio []
  (read.1, { t with wbio := read.2 })

/-- `encrypt`: the packet that the library makes of the text, with whatever else waits to be
sent. -/
def encrypt (t : DtlsTransport σ β) (plain : List UInt8) : Ran σ β (List UInt8) :=
  if !t.handshakeDone then ⟨[], t, []⟩
  else
    let o := lib.write t.ssl t.rbio t.wbio plain (.ofNat plain.length)
    let sent := (t.after o).pendingSend lib
    ⟨sent.1, sent.2, [made (.write plain (.ofNat plain.length)) o]⟩

/-- The loop of `decrypt`. -/
def readLoop (t : DtlsTransport σ β) (result : List UInt8) : Ran σ β (List UInt8) :=
  let o := lib.read t.ssl t.rbio t.wbio 4096
  let m := made (.read 4096 o.ret) o
  if o.ret = [] then ⟨result, t.after o, [m]⟩
  else
    let rest := (t.after o).readLoop (result ++ o.ret)
    { rest with calls := m :: rest.calls }
termination_by lib.unread t.ssl t.rbio
decreasing_by
  rename_i hret
  exact lib.unread_lt _ _ _ _ hret

/-- `decrypt`: what the library reads until it has nothing more; nothing before the handshake is
done. -/
def decrypt (t : DtlsTransport σ β) : Ran σ β (List UInt8) :=
  if !t.handshakeDone then ⟨[], t, []⟩ else t.readLoop lib []

/-- The keys are 60 bytes. -/
def exportSrtpKeyingMaterial (t : DtlsTransport σ β) : Ran σ β (Option (List UInt8)) :=
  if !t.handshakeDone then ⟨none, t, []⟩
  else
    let out := lib.exportKeyingMaterial t.ssl 60 extractorLabel
    ⟨out, t, [⟨.exportKeyingMaterial 60 extractorLabel out, [], []⟩]⟩

end DtlsTransport

/-! ## Operations -/

/-- What the owner of a transport calls. -/
inductive Op where
  | feed (data : List UInt8)
  | driveHandshake
  | driveTimeout
  | pendingSend
  | encrypt (plain : List UInt8)
  | decrypt
  | exportKeys

/-- What an operation returns. -/
inductive Reply where
  | void
  /-- Bytes for the network. -/
  | packet (data : List UInt8)
  | plain (data : List UInt8)
  | keys (out : Option (List UInt8))

/-- The bytes that a reply has for the network. -/
def Reply.bytes : Reply → List UInt8
  | .packet data => data
  | _ => []

/-- What an operation puts into the read BIO, the length of the data being cut to an `int`. -/
def fed : Op → List UInt8
  | .feed data => data.take (Int32.ofNat data.length).toInt.toNat
  | _ => []

section Run

variable {σ : Type u} {β : Type v} (lib : SslLib σ β) (t : DtlsTransport σ β)

/-- An operation, its result among the replies. -/
def perform : Op → Ran σ β Reply
  | .feed data => ⟨.void, t.feedData lib data, []⟩
  | .driveHandshake => (t.driveHandshake lib).map fun _ => .void
  | .driveTimeout => (t.driveTimeout lib).map fun _ => .void
  | .pendingSend => ⟨.packet (t.pendingSend lib).1, (t.pendingSend lib).2, []⟩
  | .encrypt plain => (t.encrypt lib plain).map .packet
  | .decrypt => (t.decrypt lib).map .plain
  | .exportKeys => (t.exportSrtpKeyingMaterial lib).map .keys

/-- The transport after an operation. -/
def step (op : Op) : DtlsTransport σ β := (perform lib t op).transport

/-- The calls of the library that an operation makes. -/
def calls (op : Op) : List Made := (perform lib t op).calls

/-- What an operation returns for the network. -/
def sent (op : Op) : List UInt8 := (perform lib t op).value.bytes

end Run

/-! ## The loops -/

section Loops

variable {σ : Type u} {β : Type v} (lib : SslLib σ β)

/-- The loop of `pending_send` fetches everything. -/
theorem pendingLoop_spec (bio : MemBio β) (wbio : β) (result : List UInt8) :
    (pendingLoop bio wbio result).1 = result ++ bio.pending wbio ∧
      bio.pending (pendingLoop bio wbio result).2 = [] := by
  induction wbio, result using pendingLoop.induct bio with
  | case1 wbio result read hread =>
      have hnil := bio.pending_eq_nil wbio 4096 (by decide) hread
      have hrest := bio.pending_read wbio 4096
      rw [hnil, List.append_eq_nil_iff] at hrest
      rw [pendingLoop, if_pos hread, hnil, List.append_nil]
      exact ⟨rfl, hrest.2⟩
  | case2 wbio result read hread ih =>
      rw [pendingLoop, if_neg hread]
      refine ⟨?_, ih.2⟩
      rw [ih.1, List.append_assoc, bio.pending_read]

/-- What `pending_send` returns is all that was pending. -/
theorem pendingSend_fst (t : DtlsTransport σ β) :
    (t.pendingSend lib).1 = lib.bio.pending t.wbio :=
  (pendingLoop_spec lib.bio t.wbio []).1

/-- `pending_send` empties the write BIO. -/
theorem pending_wbio_pendingSend (t : DtlsTransport σ β) :
    lib.bio.pending (t.pendingSend lib).2.wbio = [] :=
  (pendingLoop_spec lib.bio t.wbio []).2

/-- What the reads of `decrypt` return, take, write and leave alone. -/
theorem readLoop_facts (t : DtlsTransport σ β) (result : List UInt8) :
    let ran := t.readLoop lib result
    (∃ reads : List (List UInt8), ran.value = result ++ reads.flatten ∧
        ran.calls.map Made.call = reads.map (.read 4096) ++ [.read 4096 []]) ∧
      lib.bio.pending t.rbio =
        ran.calls.flatMap Made.taken ++ lib.bio.pending ran.transport.rbio ∧
      lib.bio.pending t.wbio ++ ran.calls.flatMap Made.written =
        lib.bio.pending ran.transport.wbio ∧
      ran.transport.handshakeDone = t.handshakeDone := by
  induction t, result using DtlsTransport.readLoop.induct lib with
  | case1 t result o hret =>
      -- the last read gave nothing
      rw [DtlsTransport.readLoop, if_pos hret]
      refine ⟨⟨[], (List.append_nil result).symm, ?_⟩, ?_, ?_, rfl⟩
      · rw [hret]
        rfl
      · rw [List.flatMap_singleton]
        exact o.pending_rbio
      · rw [List.flatMap_singleton]
        exact o.pending_wbio.symm
  | case2 t result o hret ih =>
      -- the reads of the remaining loop follow this one
      obtain ⟨⟨reads, hvalue, hcalls⟩, htaken, hwritten, hdone⟩ := ih
      rw [DtlsTransport.readLoop, if_neg hret]
      refine ⟨⟨o.ret :: reads, ?_, ?_⟩, ?_, ?_, hdone⟩
      · rw [List.flatten_cons, ← List.append_assoc]
        exact hvalue
      · exact congrArg (SslCall.read 4096 o.ret :: ·) hcalls
      · rw [List.flatMap_cons, List.append_assoc, ← htaken]
        exact o.pending_rbio
      · rw [List.flatMap_cons, ← List.append_assoc, ← hwritten]
        exact congrArg (· ++ _) o.pending_wbio.symm

end Loops

/-! ## One operation -/

section Step

variable {σ : Type u} {β : Type v} (lib : SslLib σ β) (t : DtlsTransport σ β)

/-- The cast of a length to an `int` does not make it longer. -/
theorem toInt_ofNat_le (n : ℕ) : (Int32.ofNat n).toInt ≤ n := by
  rw [Int32.toInt_ofNat', Int.bmod_def]
  simp only [Int32.size]
  split
  · omega
  · omega

/-- `drive_handshake` before the handshake is done. -/
theorem driveHandshake_eq {t : DtlsTransport σ β} (hdone : t.handshakeDone = false) :
    t.driveHandshake lib =
      let o := lib.doHandshake t.ssl t.rbio t.wbio
      ⟨(), { t.after o with handshakeDone := decide (o.ret = 1) },
        [DtlsTransport.made (.doHandshake o.ret) o]⟩ := by
  rw [DtlsTransport.driveHandshake, if_neg (by rw [hdone]; exact Bool.false_ne_true)]
  by_cases hret : (lib.doHandshake t.ssl t.rbio t.wbio).ret = 1
  · simp only [hret, if_true, decide_true]
  · simp only [hret, if_false, decide_false, ← hdone]
    rfl

/-- The read BIO is filled by `feed_data` and emptied by the library. -/
theorem rbio_step (op : Op) : lib.bio.pending t.rbio ++ fed op =
    (calls lib t op).flatMap Made.taken ++ lib.bio.pending (step lib t op).rbio := by
  rw [calls, step]
  cases op with
  | feed data => exact (lib.bio.pending_write t.rbio data _ (toInt_ofNat_le _)).symm
  | driveHandshake =>
      cases hdone : t.handshakeDone with
      | true => simp [fed, perform, Ran.map, DtlsTransport.driveHandshake, hdone]
      | false =>
          have htaken := (lib.doHandshake t.ssl t.rbio t.wbio).pending_rbio
          simpa [fed, perform, Ran.map, driveHandshake_eq lib hdone, DtlsTransport.made,
            DtlsTransport.after] using htaken
  | driveTimeout =>
      have htaken := (lib.handleTimeout t.ssl t.rbio t.wbio).pending_rbio
      cases hdone : t.handshakeDone with
      | true => simp [fed, perform, Ran.map, DtlsTransport.driveTimeout, hdone]
      | false =>
          simpa [fed, perform, Ran.map, DtlsTransport.driveTimeout, hdone, DtlsTransport.made,
            DtlsTransport.after] using htaken
  | pendingSend => exact List.append_nil _
  | encrypt plain =>
      -- the packet is fetched from the other BIO
      have htaken := (lib.write t.ssl t.rbio t.wbio plain (.ofNat plain.length)).pending_rbio
      cases hdone : t.handshakeDone with
      | true =>
          simpa [fed, perform, Ran.map, DtlsTransport.encrypt, hdone, DtlsTransport.made,
            DtlsTransport.after, DtlsTransport.pendingSend] using htaken
      | false => simp [fed, perform, Ran.map, DtlsTransport.encrypt, hdone]
  | decrypt =>
      cases hdone : t.handshakeDone with
      | true =>
          obtain ⟨-, htaken, -⟩ := readLoop_facts lib t []
          simpa [fed, perform, Ran.map, DtlsTransport.decrypt, hdone] using htaken
      | false => simp [fed, perform, Ran.map, DtlsTransport.decrypt, hdone]
  | exportKeys =>
      cases hdone : t.handshakeDone <;>
        simp [fed, perform, Ran.map, DtlsTransport.exportSrtpKeyingMaterial, hdone]

/-- The write BIO is filled by the library and emptied for the network. -/
theorem wbio_step (op : Op) : lib.bio.pending t.wbio ++ (calls lib t op).flatMap Made.written =
    sent lib t op ++ lib.bio.pending (step lib t op).wbio := by
  rw [calls, sent, step]
  cases op with
  | feed data => exact List.append_nil _
  | driveHandshake =>
      have hwritten := (lib.doHandshake t.ssl t.rbio t.wbio).pending_wbio
      cases hdone : t.handshakeDone with
      | true => simp [perform, Ran.map, Reply.bytes, DtlsTransport.driveHandshake, hdone]
      | false =>
          simpa [perform, Ran.map, Reply.bytes, driveHandshake_eq lib hdone, DtlsTransport.made,
            DtlsTransport.after] using hwritten.symm
  | driveTimeout =>
      have hwritten := (lib.handleTimeout t.ssl t.rbio t.wbio).pending_wbio
      cases hdone : t.handshakeDone with
      | true => simp [perform, Ran.map, Reply.bytes, DtlsTransport.driveTimeout, hdone]
      | false =>
          simpa [perform, Ran.map, Reply.bytes, DtlsTransport.driveTimeout, hdone,
            DtlsTransport.made, DtlsTransport.after] using hwritten.symm
  | pendingSend =>
      -- all that waits is fetched
      simp [perform, Reply.bytes, pendingSend_fst, pending_wbio_pendingSend]
  | encrypt plain =>
      have hwritten := (lib.write t.ssl t.rbio t.wbio plain (.ofNat plain.length)).pending_wbio
      cases hdone : t.handshakeDone with
      | true =>
          -- the bytes of this packet come behind those that waited before the call
          simpa [perform, Ran.map, Reply.bytes, DtlsTransport.encrypt, hdone, DtlsTransport.made,
            pendingSend_fst, pending_wbio_pendingSend, DtlsTransport.after] using hwritten.symm
      | false => simp [perform, Ran.map, Reply.bytes, DtlsTransport.encrypt, hdone]
  | decrypt =>
      cases hdone : t.handshakeDone with
      | true =>
          obtain ⟨-, -, hwritten, -⟩ := readLoop_facts lib t []
          simpa [perform, Ran.map, Reply.bytes, DtlsTransport.decrypt, hdone] using hwritten
      | false => simp [perform, Ran.map, Reply.bytes, DtlsTransport.decrypt, hdone]
  | exportKeys =>
      cases hdone : t.handshakeDone <;>
        simp [perform, Ran.map, Reply.bytes, DtlsTransport.exportSrtpKeyingMaterial, hdone]

/-- What an operation asks of the library, and what it makes of the answers for its caller. -/
def Returns (op : Op) : Prop :=
  let ran := perform lib t op
  let asked := ran.calls.map Made.call
  match op with
  | .feed _ => asked = [] ∧ ran.value = .void
  | .driveHandshake =>
      if t.handshakeDone then asked = [] else ∃ ret, asked = [.doHandshake ret]
  | .driveTimeout => asked = if t.handshakeDone then [] else [.handleTimeout]
  | .pendingSend =>
      asked = [] ∧ ran.value = .packet (lib.bio.pending t.wbio) ∧
        lib.bio.pending ran.transport.wbio = []
  | .encrypt plain =>
      if t.handshakeDone then
        asked = [.write plain (.ofNat plain.length)] ∧
          ran.value =
            .packet (lib.bio.pending t.wbio ++ ran.calls.flatMap Made.written) ∧
          lib.bio.pending ran.transport.wbio = []
      else asked = [] ∧ ran.value = .packet []
  | .decrypt =>
      if t.handshakeDone then
        ∃ reads : List (List UInt8), asked = reads.map (.read 4096) ++ [.read 4096 []] ∧
          ran.value = .plain reads.flatten
      else asked = [] ∧ ran.value = .plain []
  | .exportKeys =>
      if t.handshakeDone then
        ∃ out, asked = [.exportKeyingMaterial 60 extractorLabel out] ∧ ran.value = .keys out
      else asked = [] ∧ ran.value = .keys none

/-- Every operation makes the calls it is for and returns what they gave. -/
theorem returns (op : Op) : Returns lib t op := by
  cases op with
  | feed data => exact ⟨rfl, rfl⟩
  | driveHandshake =>
      cases hdone : t.handshakeDone with
      | true => simp [Returns, perform, Ran.map, DtlsTransport.driveHandshake, hdone]
      | false =>
          simp [Returns, perform, Ran.map, driveHandshake_eq lib hdone, DtlsTransport.made, hdone]
  | driveTimeout =>
      cases hdone : t.handshakeDone <;>
        simp [Returns, perform, Ran.map, DtlsTransport.driveTimeout, DtlsTransport.made, hdone]
  | pendingSend =>
      simp [Returns, perform, pendingSend_fst, pending_wbio_pendingSend]
  | encrypt plain =>
      -- what waited in the write BIO goes out in front of the new packet
      have hwritten := (lib.write t.ssl t.rbio t.wbio plain (.ofNat plain.length)).pending_wbio
      cases hdone : t.handshakeDone with
      | true =>
          simpa [Returns, perform, Ran.map, DtlsTransport.encrypt, hdone, DtlsTransport.made,
            pendingSend_fst, pending_wbio_pendingSend, DtlsTransport.after] using hwritten
      | false => simp [Returns, perform, Ran.map, DtlsTransport.encrypt, hdone]
  | decrypt =>
      cases hdone : t.handshakeDone with
      | true =>
          obtain ⟨⟨reads, hvalue, hcalls⟩, -⟩ := readLoop_facts lib t []
          simp only [Returns, perform, Ran.map, DtlsTransport.decrypt, hdone]
          exact ⟨reads, hcalls, congrArg Reply.plain hvalue⟩
      | false => simp [Returns, perform, Ran.map, DtlsTransport.decrypt, hdone]
  | exportKeys =>
      cases hdone : t.handshakeDone <;>
        simp [Returns, perform, Ran.map, DtlsTransport.exportSrtpKeyingMaterial, hdone]

end Step

/-! ## The two phases -/

section Phases

variable {σ : Type u} {β : Type v} (lib : SslLib σ β) (t : DtlsTransport σ β)

end Phases

/-- A memory BIO as the list of the bytes in it. -/
def listBio : MemBio (List UInt8) where
  new := []
  write bio data num := bio ++ data.take num.toInt.toNat
  read bio num := (bio.take num, bio.drop num)
  pending bio := bio
  pending_new := rfl
  pending_write _ _ _ _ := rfl
  pending_read bio num := List.take_append_drop num bio
  pending_eq_nil _ _ hnum hread := (List.take_eq_nil_iff.1 hread).resolve_left (Nat.ne_of_gt hnum)

/-- A library without encryption: a handshake of one byte from either side, whose state tells
whether that byte is written. -/
def plainLib : SslLib Bool (List UInt8) where
  bio := listBio
  new _ := false
  doHandshake hello r w :=
    { ret := if r = [] then -1 else 1
      ssl := true
      rbio := r.drop 1
      wbio := w ++ if hello then [] else [22]
      taken := r.take 1
      written := if hello then [] else [22]
      pending_rbio := (List.take_append_drop 1 r).symm
      pending_wbio := rfl }
  -- without encryption there is nothing to send again
  handleTimeout hello r w := ⟨0, hello, r, w, [], [], rfl, (List.append_nil w).symm⟩
  write hello r w buf num :=
    ⟨num, hello, r, w ++ buf.take num.toInt.toNat, [], buf.take num.toInt.toNat, rfl, rfl⟩
  read hello r w num :=
    { ret := r.take num
      ssl := hello
      rbio := r.drop num
      wbio := w
      taken := r.take num
      written := []
      pending_rbio := (List.take_append_drop num r).symm
      pending_wbio := (List.append_nil w).symm }
  exportKeyingMaterial _ len _ := some (List.replicate len 1)
  unread _ r := r.length
  unread_lt hello r w num hret := by
    have hpos : 0 < (r.take num).length := List.length_pos_iff.2 hret
    rw [List.length_take] at hpos
    change (r.drop num).length < r.length
    rw [List.length_drop]
    omega

end CppMeet.Dtls.Transport
