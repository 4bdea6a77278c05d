/-
# Zap.Node.Codec — the node's framing (`node_codec.go` and the tail of `node.go`).

Three encodings meet on one connection: a frame is a length and that many bytes (`writeMessage`,
`readMessageRaw`), the first frame each way is the node id in a 64-byte object
(`encodeNodeIDHandshake`), and the frame of a call starts with a request id and a flag in front of the
message (`wrapCorrelated`). Nothing in a frame says whether it has that header: `unwrapCorrelated` takes
bytes 4 to 8 for the flag, which in a plain message are the version and the flags of the message.
-/
import Zap.Wire.Envelope

namespace Zap.Node

open Zap.Lib Zap.Wire

/-! ## Frames -/

/-- Why no frame can be read: the stream ends inside it, or its length is over the limit. -/
inductive ReadError
  | eof
  | tooLarge

abbrev maxFrame : Nat := 10 * 1024 * 1024

/-- `writeMessage`: the bytes it puts on the connection. -/
def writeMessage (data : List UInt8) : List UInt8 := le 4 data.length ++ data

/-- `readMessageRaw`: one frame off a stream, and the rest of the stream. -/
def readMessageRaw (r : List UInt8) : Except ReadError (List UInt8 × List UInt8) :=
  if r.length < 4 then .error .eof
  else
    let length := ofLE (r.take 4)
    if maxFrame < length then .error .tooLarge
    else if (r.drop 4).length < length then .error .eof
    else .ok ((r.drop 4).take length, (r.drop 4).drop length)

theorem readMessageRaw_writeMessage {data : List UInt8} (hlen : data.length ≤ maxFrame)
    (rest : List UInt8) : readMessageRaw (writeMessage data ++ rest) = .ok (data, rest) := by
  have htake : (writeMessage data ++ rest).take 4 = le 4 data.length := by
    simp [writeMessage]
  have hdrop : (writeMessage data ++ rest).drop 4 = data ++ rest := by
    simp [writeMessage]
  have hword : ofLE (le 4 data.length) = data.length := by
    rw [ofLE_le, Nat.mod_eq_of_lt (Nat.lt_of_le_of_lt hlen (by decide))]
  have hsize : ¬(writeMessage data ++ rest).length < 4 := by
    simp [writeMessage]
  have hbody : ¬(data ++ rest).length < data.length := by
    rw [List.length_append]
    omega
  simp only [readMessageRaw, if_neg hsize, htake, hword, if_neg (Nat.not_lt.mpr hlen), hdrop,
    if_neg hbody, List.take_left, List.drop_left]

/-! ## The correlation header -/

abbrev reqFlagReq : Nat := 1

abbrev reqFlagResp : Nat := 2

abbrev correlatedHeaderSize : Nat := 8

def wrapCorrelated (reqID flag : Nat) (body : List UInt8) : List UInt8 := le 4 reqID ++ (le 4 flag ++ body)

/-- `writeCorrelated`: the length counts the header. -/
def writeCorrelated (reqID flag : Nat) (body : List UInt8) : List UInt8 :=
  le 4 (correlatedHeaderSize + body.length) ++ (le 4 reqID ++ (le 4 flag ++ body))

/-- `UnwrapCorrelated`: request id, flag and body, if the flag is one of the two. -/
def unwrapCorrelated (data : List UInt8) : Option (Nat × Nat × List UInt8) :=
  if data.length < correlatedHeaderSize then none
  else
    let reqID := ofLE (window data 0 4)
    let flag := ofLE (window data 4 4)
    if flag ≠ reqFlagReq ∧ flag ≠ reqFlagResp then none
    else some (reqID, flag, data.drop correlatedHeaderSize)

@[simp]
theorem wrapCorrelated_length (reqID flag : Nat) (body : List UInt8) :
    (wrapCorrelated reqID flag body).length = correlatedHeaderSize + body.length := by
  rw [wrapCorrelated, List.length_append, List.length_append, le_length, le_length, ← Nat.add_assoc]

/-- The scatter-gather writer and the copying one put the same bytes on the connection. -/
theorem writeCorrelated_eq (reqID flag : Nat) (body : List UInt8) :
    writeCorrelated reqID flag body = writeMessage (wrapCorrelated reqID flag body) := by
  rw [writeMessage, wrapCorrelated_length]
  rfl

theorem unwrapCorrelated_wrapCorrelated {reqID flag : Nat} (hid : reqID < 2 ^ 32)
    (hflag : flag = reqFlagReq ∨ flag = reqFlagResp) (body : List UInt8) :
    unwrapCorrelated (wrapCorrelated reqID flag body) = some (reqID, flag, body) := by
  have hlen : ¬(wrapCorrelated reqID flag body).length < correlatedHeaderSize := by
    rw [wrapCorrelated_length]
    omega
  have hfirst : window (wrapCorrelated reqID flag body) 0 4 = le 4 reqID := by
    simp [window, wrapCorrelated]
  have hsecond : window (wrapCorrelated reqID flag body) 4 4 = le 4 flag :=
    window_mid (le_length 4 _) (le_length 4 _)
  have hbody : (wrapCorrelated reqID flag body).drop correlatedHeaderSize = body := by
    rw [wrapCorrelated, ← List.append_assoc]
    exact List.drop_left' (by simp)
  have hword : ofLE (le 4 flag) = flag := by
    rw [ofLE_le, Nat.mod_eq_of_lt]
    rcases hflag with rfl | rfl <;> decide
  simp only [unwrapCorrelated, if_neg hlen, hfirst, hsecond, hword, hbody]
  rw [if_neg (by tauto), ofLE_le, Nat.mod_eq_of_lt (by simpa using hid)]

/-! ## A plain message under the header -/

theorem ofLE_append (a b : List UInt8) : ofLE (a ++ b) = ofLE a + 256 ^ a.length * ofLE b := by
  induction a with
  | nil => simp [ofLE, ofBE]
  | cons x a ih =>
    have hcons : ∀ l : List UInt8, ofLE (x :: l) = ofLE l * 256 + x.toNat := fun l => by
      simp [ofLE, ofBE_concat]
    rw [List.cons_append, hcons, hcons, ih, List.length_cons, pow_succ]
    ring

/-- The four bytes the flag is read from hold the version and the flags of the message. -/
theorem flag_of_message (m : Message) : ofLE (window m.data 4 4) = m.version + 2 ^ 16 * m.flags := by
  have hhead := m.header
  have h16 : headerSize = 16 := rfl
  have hsplit : window m.data 4 4 = window m.data 4 2 ++ window m.data 6 2 := by
    rw [window, window, window, show (4 : Nat) = 2 + 2 from rfl, List.take_add, List.drop_drop]
  rw [hsplit, ofLE_append, window_length (by omega)]
  rfl

theorem version_of_parse {data : List UInt8} {m : Message} (h : parse data = .ok m) :
    m.version = version1 ∨ m.version = version2 := by
  have hver := (parse_ok_iff.mp h).2.2.1
  rwa [Message.version, parse_window h (by decide)]

/-- **What a plain message is taken for**: with flags for itself, without flags for a request if its
version is 1 and for a response if it is 2. -/
theorem unwrap_message {data : List UInt8} {m : Message} (h : parse data = .ok m) :
    unwrapCorrelated m.data = if m.flags = 0 then
      some (ofLE magic, m.version, m.data.drop correlatedHeaderSize) else none := by
  have hhead := m.header
  have h16 : headerSize = 16 := rfl
  have hlen : ¬m.data.length < correlatedHeaderSize := by
    show ¬m.data.length < 8
    omega
  have hmagic : window m.data 0 4 = magic := by
    rw [parse_window h (by decide)]
    exact (parse_ok_iff.mp h).2.1
  have hver := version_of_parse h
  simp only [unwrapCorrelated, if_neg hlen, flag_of_message, hmagic]
  by_cases hflags : m.flags = 0
  · rw [if_pos hflags, hflags, Nat.mul_zero, Nat.add_zero, if_neg (by tauto)]
  · have hlt : ∀ k < 2 ^ 16, m.version + 2 ^ 16 * m.flags ≠ k := by
      intro k hk heq
      omega
    rw [if_neg hflags, if_pos ⟨hlt 1 (by decide), hlt 2 (by decide)⟩]

/-! ## The node id handshake -/

abbrev maxNodeIDLen : Nat := 60

/-- The bytes of an id, one `SetUint8` each from offset `i` on, in front of other fields. -/
def idFields (rest : Fields) : Nat → List UInt8 → Fields
  | _, [] => rest
  | i, x :: xs => .cons i (.scalar .w8 x.toNat) (idFields rest (i + 1) xs)

/-- The fields `EncodeNodeIDHandshake` sets, for an id within the limit. -/
def handshakeFields (id : List UInt8) : Fields := idFields (.cons maxNodeIDLen (.scalar .w32 id.length) .nil) 0 id

/-- `EncodeNodeIDHandshake`: an id over the limit is cut. -/
def encodeNodeIDHandshake (nodeID : List UInt8) : Go (List UInt8) := do
  let x ← Builder.run (Wire.Tree.node 64 (handshakeFields (nodeID.take maxNodeIDLen))).parentFirst
    (newBuilder 128 version2)
  return x.2.finish.1

/-- The first `n` bytes of an object, one `Uint8` each from offset `i` on. -/
def readBytes (o : Object) (i : Nat) : Nat → Go (List UInt8)
  | 0 => return []
  | n + 1 => do
      let x ← o.uint8 i
      let xs ← readBytes o (i + 1) n
      return .ofNat x :: xs

def decodeNodeIDHandshake (data : List UInt8) : Go (Option (List UInt8)) :=
  match parse data with
  | .error _ => return none
  | .ok msg => do
      let idLen ← msg.root.uint32 maxNodeIDLen
      if idLen = 0 ∨ idLen > maxNodeIDLen then return none
      else return some (← readBytes msg.root 0 idLen)

section Handshake

variable {m : Message} {size a : Nat} {rest : Fields}

theorem idFields_clear {off n : Nat} (hrest : rest.Clear off n) : ∀ (i : Nat) (xs : List UInt8),
    off + n ≤ i → (idFields rest i xs).Clear off n
  | _, [], _ => hrest
  | i, _ :: xs, hi => ⟨.inl hi, idFields_clear hrest (i + 1) xs (Nat.le_succ_of_le hi)⟩

theorem idFields_wf (hrest : rest.WF size) : ∀ (i : Nat) (xs : List UInt8),
    (∀ j < i + xs.length, rest.Clear j 1) → i + xs.length ≤ size → (idFields rest i xs).WF size
  | _, [], _, _ => hrest
  | i, x :: xs, hclear, hsize => by
      rw [List.length_cons] at hclear hsize
      have htail : (idFields rest (i + 1) xs).WF size :=
        idFields_wf hrest (i + 1) xs (fun j hj => hclear j (by omega)) (by omega)
      exact ⟨x.toNat_lt, by simp only [Field.width, Width.bytes]; omega,
        idFields_clear (hclear i (by omega)) (i + 1) xs (Nat.le_refl _), htail⟩

theorem idFields_plain (hrest : rest.Plain) :
    ∀ (i : Nat) (xs : List UInt8), (idFields rest i xs).Plain
  | _, [] => hrest
  | i, _ :: xs => idFields_plain hrest (i + 1) xs

theorem idFields_tail : ∀ (i : Nat) (xs : List UInt8), (idFields rest i xs).tail = rest.tail
  | _, [] => rfl
  | i, _ :: xs => idFields_tail (i + 1) xs

theorem readBytes_of_reads : ∀ (i : Nat) (xs : List UInt8), (idFields rest i xs).Reads m size a →
    readBytes (m.objectAt a) i xs.length = .ok xs ∧ rest.Reads m size a
  | _, [], h => ⟨rfl, h⟩
  | i, x :: xs, ⟨hx, h⟩ => by
      obtain ⟨hxs, hrest⟩ := readBytes_of_reads (i + 1) xs h
      have hbyte : (m.objectAt a).uint8 i = .ok x.toNat := hx.1
      refine ⟨?_, hrest⟩
      rw [List.length_cons, readBytes, hbyte, go_bind_ok, hxs, go_bind_ok, go_pure, UInt8.ofNat_toNat]

end Handshake

theorem handshakeFields_wf {id : List UInt8} (hid : id.length ≤ maxNodeIDLen) :
    (Wire.Tree.node 64 (handshakeFields id)).WF := by
  have hmax : maxNodeIDLen = 60 := rfl
  have hlength : (Fields.cons maxNodeIDLen (.scalar .w32 id.length) .nil).WF 64 := by
    refine ⟨?_, Nat.le_refl 64, trivial, trivial⟩
    show id.length < 256 ^ 4
    omega
  exact ⟨by decide, idFields_wf hlength 0 id (fun j hj => ⟨.inl (by omega), trivial⟩) (by omega)⟩

/-- **The handshake carries the id**, cut to the limit; the empty id is not carried. -/
theorem decode_encode (nodeID : List UInt8) :
    ∃ data, encodeNodeIDHandshake nodeID = .ok data ∧ data.length = 80 ∧
      decodeNodeIDHandshake data = .ok (if nodeID = [] then none else some (nodeID.take maxNodeIDLen)) := by
  have hid : (nodeID.take maxNodeIDLen).length ≤ maxNodeIDLen := by
    rw [List.length_take]
    exact Nat.min_le_left _ _
  have htail : (handshakeFields (nodeID.take maxNodeIDLen)).tail = 0 := idFields_tail _ _
  have hplain : (handshakeFields (nodeID.take maxNodeIDLen)).Plain :=
    @idFields_plain (.cons maxNodeIDLen (.scalar .w32 _) .nil) trivial 0 _
  obtain ⟨ob, b, m, hrun, hparse, hlen, hreads⟩ := finish_reads 128 (handshakeFields_wf hid)
    hplain (by rw [htail]; decide)
  obtain ⟨hbytes, hlength, -⟩ := readBytes_of_reads 0 _ hreads
  have hword : m.root.uint32 maxNodeIDLen = .ok (nodeID.take maxNodeIDLen).length := hlength.1
  refine ⟨b.finish.1, ?_, by rw [hlen, htail], ?_⟩
  · rw [encodeNodeIDHandshake, hrun, go_bind_ok, go_pure]
  simp only [decodeNodeIDHandshake, hparse, hword, go_bind_ok]
  by_cases hnil : nodeID = []
  · rw [if_pos hnil, if_pos (.inl (by rw [hnil]; rfl)), go_pure]
  · have hpos : (nodeID.take maxNodeIDLen).length ≠ 0 := by
      simpa using hnil
    rw [if_neg hnil, if_neg (by omega), show m.root = m.objectAt m.rootOffset from rfl, hbytes,
      go_bind_ok, go_pure]

theorem readBytes_total (m : Message) : ∀ n i : Nat, i + n < 2 ^ 32 → ∃ xs, readBytes m.root i n = .ok xs
  | 0, _, _ => ⟨[], rfl⟩
  | n + 1, i, hi => by
      have hoff := m.rootOffset_lt
      obtain ⟨xs, hxs⟩ := readBytes_total m n (i + 1) (by omega)
      have hbyte : m.root.uint8 i = .ok (m.uintAt 1 (m.rootOffset + i)) := Object.uint8_eval (by omega)
      exact ⟨_, by rw [readBytes, hbyte, go_bind_ok, hxs, go_bind_ok, go_pure]⟩

theorem decode_total (data : List UInt8) : ∃ r, decodeNodeIDHandshake data = .ok r := by
  rw [decodeNodeIDHandshake]
  cases hp : parse data with
  | error e => exact ⟨none, rfl⟩
  | ok m =>
    have hmax : maxNodeIDLen = 60 := rfl
    have hoff := m.rootOffset_lt
    have hword : m.root.uint32 maxNodeIDLen = .ok (m.uintAt 4 (m.rootOffset + maxNodeIDLen)) :=
      Object.uint_eval (by decide) (by omega)
    simp only [hword, go_bind_ok]
    split_ifs with hlen
    · exact ⟨none, rfl⟩
    · obtain ⟨xs, hxs⟩ := readBytes_total m (m.uintAt 4 (m.rootOffset + maxNodeIDLen)) 0 (by omega)
      exact ⟨some xs, by rw [hxs, go_bind_ok, go_pure]⟩

end Zap.Node
