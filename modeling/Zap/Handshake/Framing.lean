/-
# Zap.Handshake.Framing — frames through pooled buffers, over any division of the stream.

`writeFrame` assembles a frame in a buffer drawn from one of 24 pools and hands it to one `Write`; the buffer
holds whatever the frame before it left there. `readFrame` reads a header and a body with `io.ReadFull` from a
connection that delivers the stream in pieces of its own choosing.

Every byte that is sent has been stored first, so a drawn buffer never shows; and a buffer of the pool that
`frameBufBucket` picks is long enough, so the slice expression does not panic (`writePooled_eq`).
-/
import Zap.Handshake.Canonical
import Zap.Handshake.FrameRuns
import Zap.Handshake.Kdf
import Zap.Lib.Buffer
import Zap.Lib.Reader

namespace Zap.Handshake

open Zap.Lib Zap.Lib.Prog Zap.Lib.Proc

/-! ## The buffers of `writeFrame` -/

/-- The first pool whose buffers hold `total` bytes; `none` is the source's `-1`. -/
def frameBufBucket (total : Nat) : Option Nat := (List.range 24).find? fun i => total ≤ 2 ^ (i + 5)

/-- The contents of the pools: pool `i` holds buffers of `2^(i+5)` bytes, with any bytes in them. -/
structure FramePools where
  bufs : Nat → List Bytes
  sized : ∀ i, ∀ b ∈ bufs i, b.length = 2 ^ (i + 5)

namespace FramePools

def drop (pools : FramePools) (i pick : Nat) : FramePools where
  bufs := Function.update pools.bufs i ((pools.bufs i).eraseIdx pick)
  sized := by
    intro j b hb
    by_cases hj : j = i
    · subst hj
      rw [Function.update_self] at hb
      exact pools.sized j b (List.mem_of_mem_eraseIdx hb)
    · rw [Function.update_of_ne hj] at hb
      exact pools.sized j b hb

def put (pools : FramePools) (i : Nat) (buf : Bytes) (h : buf.length = 2 ^ (i + 5)) : FramePools where
  bufs := Function.update pools.bufs i (buf :: pools.bufs i)
  sized := by
    intro j b hb
    by_cases hj : j = i
    · subst hj
      rw [Function.update_self] at hb
      rcases List.mem_cons.mp hb with rfl | hb
      · exact h
      · exact pools.sized j b hb
    · rw [Function.update_of_ne hj] at hb
      exact pools.sized j b hb

end FramePools

/-- The length of the buffer a frame of `total` bytes is assembled in. -/
def frameBufLen (total : Nat) : Nat := ((frameBufBucket total).map fun i => 2 ^ (i + 5)).getD total

/-- Which buffer `sync.Pool.Get` returns is open: `pick` is its place in the pool, and past the end of the pool
it is a new one. -/
def getFrameBuf (pools : FramePools) (pick total : Nat) : Bytes × FramePools :=
  match frameBufBucket total with
  | none => (List.replicate total 0, pools)
  | some i =>
    match (pools.bufs i)[pick]? with
    | some buf => (buf, pools.drop i pick)
    | none => (List.replicate (2 ^ (i + 5)) 0, pools)

def putFrameBuf (pools : FramePools) (buf : Bytes) (total : Nat) (h : buf.length = frameBufLen total) :
    FramePools :=
  match hb : frameBufBucket total with
  | none => pools
  | some i => pools.put i buf (by rw [h, frameBufLen, hb]; rfl)

theorem getFrameBuf_length (pools : FramePools) (pick total : Nat) :
    (getFrameBuf pools pick total).1.length = frameBufLen total := by
  unfold getFrameBuf frameBufLen
  cases frameBufBucket total with
  | none => simp
  | some i =>
    cases hbuf : (pools.bufs i)[pick]? with
    | none => simp [hbuf]
    | some buf => simpa [hbuf] using pools.sized i buf (List.mem_of_getElem? hbuf)

theorem le_frameBufLen (total : Nat) : total ≤ frameBufLen total := by
  unfold frameBufLen
  cases hb : frameBufBucket total with
  | none => simp
  | some i => simpa using List.find?_some hb

/-- The three stores: the type byte, the length, the body. -/
def fillFrame (t : FrameType) (body buf : Bytes) : Bytes :=
  overwrite (overwrite (overwrite buf 0 [t.byte]) 1 (be 4 body.length)) 5 body

section Fill

variable {t : FrameType} {body buf : Bytes}

theorem envelope_length (t : FrameType) (body : Bytes) : (envelope t body).length = 5 + body.length := by
  simp [envelope]
  omega

theorem fillFrame_eq (h : 5 + body.length ≤ buf.length) :
    fillFrame t body buf = envelope t body ++ buf.drop (5 + body.length) := by
  obtain ⟨b, rest, rfl⟩ : ∃ b rest, buf = b :: rest := by
    cases buf with
    | nil => simp at h
    | cons b rest => exact ⟨b, rest, rfl⟩
  have hlen : (t.byte :: be 4 body.length).length = 5 := by simp
  have hsecond : overwrite (overwrite (b :: rest) 0 [t.byte]) 1 (be 4 body.length) =
      (t.byte :: be 4 body.length) ++ rest.drop 4 := by
    simp [overwrite]
  rw [fillFrame, hsecond, overwrite, List.take_left' hlen, ← List.drop_drop, List.drop_left' hlen, envelope,
    List.append_assoc, ← List.drop_drop]
  rfl

theorem fillFrame_length (h : 5 + body.length ≤ buf.length) : (fillFrame t body buf).length = buf.length := by
  rw [fillFrame_eq h, List.length_append, envelope_length, List.length_drop]
  omega

end Fill

/-- `writeFrame` as far as its `Write`: the bytes handed to it, and the pools once the buffer is back. The inner
`none` is the panic of the slice expression `(*bufP)[:total]`. -/
def writePooled (pools : FramePools) (pick : Nat) (t : FrameType) (body : Bytes) :
    Except Err (Option (Bytes × FramePools)) :=
  if body.length > maxFrameBody then
    .error (decodeErr s!"frame body {body.length} exceeds {maxFrameBody}")
  else
    let total := 5 + body.length
    let got := getFrameBuf pools pick total
    if h : total ≤ got.1.length then
      .ok (some ((fillFrame t body got.1).take total, putFrameBuf got.2 (fillFrame t body got.1) total
          (by rw [fillFrame_length h, getFrameBuf_length])))
    else .ok none

variable {body rest p : Bytes} {f : Frame} {t : FrameType} {out fs : List Frame} {cs : List Bytes}

/-- **A frame that fits is sent as it is**, whatever the pools hold. -/
theorem writePooled_eq (pools : FramePools) (pick : Nat) (t : FrameType) (h : body.length ≤ maxFrameBody) :
    ∃ pools', writePooled pools pick t body = .ok (some (envelope t body, pools')) := by
  have hlong : 5 + body.length ≤ (getFrameBuf pools pick (5 + body.length)).1.length := by
    rw [getFrameBuf_length]
    exact le_frameBufLen _
  have hsent : (fillFrame t body (getFrameBuf pools pick (5 + body.length)).1).take (5 + body.length) =
      envelope t body := by
    rw [fillFrame_eq hlong, List.take_left' (envelope_length t body)]
  unfold writePooled
  rw [if_neg (Nat.not_lt.mpr h)]
  simp only [dif_pos hlong, hsent]
  exact ⟨_, rfl⟩

/-! ## Frames and their type bytes -/

/-- A frame of the protocol other than HELLO. -/
inductive Frame
  | kemInit (k : KEMInitFrame)
  | kemReply (k : KEMReplyFrame)
  | auth (a : AuthFrame)
  | data (d : DataFrame)
  | rekey (r : RekeyFrame)
  | alert (a : AlertFrame)
  | helloPSK (h : HelloPSKFrame)
  deriving DecidableEq

namespace Frame

def type : Frame → FrameType
  | .kemInit _ => frameKEMInit
  | .kemReply _ => frameKEMReply
  | .auth _ => frameAuth
  | .data _ => frameData
  | .rekey _ => frameRekey
  | .alert _ => frameAlert
  | .helloPSK _ => frameHelloPSK

def encode : Frame → Except Err Bytes
  | .kemInit k => .ok k.encode
  | .kemReply k => k.encode
  | .auth a => a.encode
  | .data d => .ok d.encode
  | .rekey r => .ok r.encode
  | .alert a => .ok a.encode
  | .helloPSK h => .ok h.encode

/-- The encoder succeeds and the body is within the frame limit. -/
def Fits (f : Frame) : Prop := ∃ body, f.encode = .ok body ∧ body.length ≤ maxFrameBody

def wire (f : Frame) : Bytes :=
  match f.encode with
  | .ok body => envelope f.type body
  | .error _ => []

theorem wire_eq (h : f.encode = .ok body) : f.wire = envelope f.type body := by
  rw [wire, h]

end Frame

def decodeFrame (t : FrameType) (body : Bytes) : Except Err Frame :=
  if t = frameKEMInit then (decodeKEMInit body).map .kemInit
  else if t = frameKEMReply then (decodeKEMReply body).map .kemReply
  else if t = frameAuth then (decodeAuth body).map .auth
  else if t = frameData then (decodeData body).map .data
  else if t = frameRekey then (decodeRekey body).map .rekey
  else if t = frameAlert then (decodeAlert body).map .alert
  else if t = frameHelloPSK then (decodeHelloPSK body).map .helloPSK
  else .error (decodeErr ("unknown frame 0x" ++ hex02 t.byte))

theorem map_eq_ok {α β : Type} {g : α → β} {r : Except Err α} {b : β} :
    r.map g = .ok b ↔ ∃ a, r = .ok a ∧ g a = b := by
  cases r <;> simp [Except.map]

theorem decodeFrame_encode (h : f.encode = .ok body) (hfit : body.length ≤ maxFrameBody) :
    decodeFrame f.type body = .ok f := by
  have hmax : maxFrameBody < 2 ^ 32 := by decide
  cases f with
  | kemInit k =>
    cases h
    exact map_eq_ok.mpr ⟨k, decodeKEMInit_encode k, rfl⟩
  | kemReply k => exact map_eq_ok.mpr ⟨k, (decodeKEMReply_encode h).2, rfl⟩
  | auth a => exact map_eq_ok.mpr ⟨a, decodeAuth_encode h, rfl⟩
  | data d =>
    cases h
    have hlen : d.ciphertext.length ≤ d.encode.length := by
      simp [DataFrame.encode]
      omega
    exact map_eq_ok.mpr ⟨d, decodeData_encode (by omega), rfl⟩
  | rekey r =>
    cases h
    exact map_eq_ok.mpr ⟨r, decodeRekey_encode r, rfl⟩
  | alert a =>
    cases h
    have hlen : a.detail.length ≤ a.encode.length := by
      simp [AlertFrame.encode]
      omega
    exact map_eq_ok.mpr ⟨a, decodeAlert_encode (by omega), rfl⟩
  | helloPSK p =>
    cases h
    exact map_eq_ok.mpr ⟨p, decodeHelloPSK_encode p, rfl⟩

/-- An accepted body is the encoding of its frame, and the frame has the type that was announced. -/
theorem encode_decodeFrame (h : decodeFrame t body = .ok f) : f.type = t ∧ f.encode = .ok body := by
  unfold decodeFrame at h
  split_ifs at h with h1 h2 h3 h4 h5 h6 h7
  · obtain ⟨k, hdec, rfl⟩ := map_eq_ok.mp h
    exact ⟨h1.symm, congrArg _ (encode_decodeKEMInit hdec)⟩
  · obtain ⟨k, hdec, rfl⟩ := map_eq_ok.mp h
    exact ⟨h2.symm, encode_decodeKEMReply hdec⟩
  · obtain ⟨a, hdec, rfl⟩ := map_eq_ok.mp h
    exact ⟨h3.symm, encode_decodeAuth hdec⟩
  · obtain ⟨d, hdec, rfl⟩ := map_eq_ok.mp h
    exact ⟨h4.symm, congrArg _ (encode_decodeData hdec)⟩
  · obtain ⟨r, hdec, rfl⟩ := map_eq_ok.mp h
    exact ⟨h5.symm, congrArg _ (encode_decodeRekey hdec)⟩
  · obtain ⟨a, hdec, rfl⟩ := map_eq_ok.mp h
    exact ⟨h6.symm, congrArg _ (encode_decodeAlert hdec)⟩
  · obtain ⟨p, hdec, rfl⟩ := map_eq_ok.mp h
    exact ⟨h7.symm, congrArg _ (encode_decodeHelloPSK hdec)⟩

theorem envelope_prefix {t' : FrameType} {body' : Bytes} (hfit : body.length ≤ maxFrameBody)
    (hfit' : body'.length ≤ maxFrameBody) (h : envelope t' body' <+: envelope t body ++ rest) :
    t' = t ∧ body' = body := by
  obtain ⟨rest', h⟩ := h
  simp only [envelope, List.cons_append, List.append_assoc] at h
  obtain ⟨htype, h⟩ := List.cons.inj h
  obtain ⟨hcount, h⟩ := append_split (by simp) h
  have hlen : body'.length = body.length := by
    rw [← ofBE_length body' hfit', hcount, ofBE_length body hfit]
  exact ⟨congrArg FrameType.mk htype, (append_split hlen h).1⟩

/-! ## The reader -/

section Reading

variable {C : Prims} {stop : String} {cs cs' : List Bytes}

/-- A connection that delivers the pieces `cs` and then stops with an error. -/
inductive Delivers (C : Prims) (stop : String) : List Bytes → Event C → List Bytes → Prop
  | read (n : Nat) (cs : List Bytes) :
      Delivers C stop cs ⟨.readFull n, (Reader.readFull stop n cs).1⟩ (Reader.readFull stop n cs).2

theorem Delivers.det {cs1 cs2 : List Bytes} {r : Req C} {x x' : r.Resp} (h : Delivers C stop cs ⟨r, x⟩ cs1)
    (h' : Delivers C stop cs ⟨r, x'⟩ cs2) : x = x' ∧ cs1 = cs2 := by
  cases h
  cases h'
  exact ⟨rfl, rfl⟩

theorem Delivers.of_append (C : Prims) (stop : String) {n : Nat} (a : Arr n) (h : cs.flatten = a.bytes ++ rest) :
    ∃ cs', Delivers C stop cs (gotBytes a) cs' ∧ cs'.flatten = rest := by
  obtain ⟨cs', hread, hrest⟩ := Reader.readFull_of_append stop a h
  have hstep : Delivers C stop cs _ _ := .read n cs
  rw [hread] at hstep
  exact ⟨cs', hstep, hrest⟩

theorem delivered_prefix {tr : List (Event C)} (h : Path (Delivers C stop) cs tr cs') :
    tr.flatMap readBytes <+: cs.flatten := by
  induction h with
  | nil cs => exact List.nil_prefix
  | @cons cs e cs1 tr cs2 hstep _ ih =>
    cases hstep with
    | read n =>
      rw [List.flatMap_cons]
      rcases hread : Reader.readFull stop n cs with ⟨x, rest⟩
      rw [hread] at ih
      cases x with
      | ok a =>
        rw [Reader.readFull_ok hread]
        exact List.prefix_append_right_inj _ |>.mpr ih
      | error e =>
        rw [Reader.readFull_error hread] at ih
        rw [List.prefix_nil.mp ih]
        exact List.nil_prefix

theorem readFrame_returns (C : Prims) (stop : String) (cs : List Bytes) :
    ∃ r cs', Answered (Delivers C stop) (readFrame : M C _).run cs r cs' := by
  refine answered_exists (fun r : Req C => ¬∃ n, r = .readFull n) ?_
    (readFrame_avoids fun n h => h ⟨n, rfl⟩) cs
  intro w r hr
  obtain ⟨n, rfl⟩ := not_not.mp hr
  exact ⟨_, _, .read n w⟩

theorem readFrame_whole (C : Prims) (stop : String) (hfit : body.length ≤ maxFrameBody)
    (h : cs.flatten = envelope t body ++ rest) :
    ∃ cs', Answered (Delivers C stop) (readFrame : M C _).run cs (.ok (t, body)) cs' ∧ cs'.flatten = rest := by
  cases body with
  | nil =>
    obtain ⟨cs', hstep, hrest⟩ := Delivers.of_append C stop (header t 0) h
    exact ⟨cs', ⟨_, readFrame_run hfit, .cons hstep (.nil _)⟩, hrest⟩
  | cons b body =>
    have hcopy : (Arr.copy (ofBE (be 4 (body.length + 1))) (b :: body)).bytes = b :: body :=
      Arr.copy_bytes (ofBE_length (b :: body) hfit).symm
    have hsplit : cs.flatten = (header t (body.length + 1)).bytes ++
        ((Arr.copy (ofBE (be 4 (body.length + 1))) (b :: body)).bytes ++ rest) := by
      rw [hcopy, h]
      simp [envelope, header]
    obtain ⟨cs1, hhdr, hrest1⟩ := Delivers.of_append C stop _ hsplit
    obtain ⟨cs2, hbody, hrest2⟩ := Delivers.of_append C stop _ hrest1
    exact ⟨cs2, ⟨_, readFrame_run hfit, .cons hhdr (.cons hbody (.nil _))⟩, hrest2⟩

theorem readFrame_cut (C : Prims) (stop : String) (hfit : body.length ≤ maxFrameBody)
    (h : cs.flatten <+: envelope t body) (hshort : cs.flatten.length < (envelope t body).length) :
    ∃ e cs', Answered (Delivers C stop) (readFrame : M C _).run cs (.error e) cs' := by
  obtain ⟨r, cs', hr⟩ := readFrame_returns C stop cs
  cases r with
  | error e => exact ⟨e, cs', hr⟩
  | ok f =>
    obtain ⟨t', body'⟩ := f
    obtain ⟨tr, hruns, hpath⟩ := hr
    obtain ⟨hread, hfit'⟩ := (readFrame_runs hruns).2 t' body' rfl
    have hfront := delivered_prefix hpath
    rw [hread] at hfront
    -- the frame it would have returned is the one that is cut off, and longer than what is there
    have hwhole : envelope t' body' <+: envelope t body ++ [] := by
      rw [List.append_nil]
      exact hfront.trans h
    obtain ⟨rfl, rfl⟩ := envelope_prefix hfit hfit' hwhole
    exact absurd hfront.length_le (by omega)

/-- `Reads C stop cs out e`: frame after frame is read and decoded, `out` is what is returned and `e` is the error
at the end. -/
inductive Reads (C : Prims) (stop : String) : List Bytes → List Frame → Err → Prop
  | fail {cs cs' : List Bytes} {e : Err} :
      Answered (Delivers C stop) (readFrame : M C _).run cs (.error e) cs' → Reads C stop cs [] e
  | refuse {cs cs' : List Bytes} {t : FrameType} {body : Bytes} {e : Err} :
      Answered (Delivers C stop) (readFrame : M C _).run cs (.ok (t, body)) cs' →
      decodeFrame t body = .error e → Reads C stop cs [] e
  | next {cs cs' : List Bytes} {t : FrameType} {body : Bytes} {f : Frame} {out : List Frame} {e : Err} :
      Answered (Delivers C stop) (readFrame : M C _).run cs (.ok (t, body)) cs' →
      decodeFrame t body = .ok f → Reads C stop cs' out e → Reads C stop cs (f :: out) e

variable {e : Err}

theorem reads_iff_of_error (h : Answered (Delivers C stop) (readFrame : M C _).run cs (.error e) cs') {e' : Err} :
    Reads C stop cs out e' ↔ out = [] ∧ e' = e := by
  constructor
  · rintro (h' | ⟨h', -⟩ | ⟨h', -, -⟩)
    · obtain ⟨heq, -⟩ := h.det Delivers.det h'
      cases heq
      exact ⟨rfl, rfl⟩
    · cases (h.det Delivers.det h').1
    · cases (h.det Delivers.det h').1
  · rintro ⟨rfl, rfl⟩
    exact .fail h

theorem reads_iff_of_ok (h : Answered (Delivers C stop) (readFrame : M C _).run cs (.ok (t, body)) cs')
    (hdec : decodeFrame t body = .ok f) :
    Reads C stop cs out e ↔ ∃ out', out = f :: out' ∧ Reads C stop cs' out' e := by
  constructor
  · rintro (h' | ⟨h', hdec'⟩ | ⟨h', hdec', hrest⟩)
    · cases (h.det Delivers.det h').1
    · obtain ⟨heq, -⟩ := h.det Delivers.det h'
      cases heq
      rw [hdec] at hdec'
      cases hdec'
    · obtain ⟨heq, rfl⟩ := h.det Delivers.det h'
      cases heq
      rw [hdec] at hdec'
      cases hdec'
      exact ⟨_, rfl, hrest⟩
  · rintro ⟨out', rfl, hrest⟩
    exact .next h hdec hrest

end Reading

/-! ## What is read back -/

def wires (fs : List Frame) : Bytes := fs.flatMap Frame.wire

/-- The frames of `fs` that are whole in the beginning `p` of their stream. -/
structure WholeIn (p : Bytes) (fs out : List Frame) : Prop where
  initial : out <+: fs
  inside : wires out <+: p
  greatest : ∀ more, more <+: fs → wires more <+: p → more <+: out

theorem wires_cons (f : Frame) (fs : List Frame) : wires (f :: fs) = f.wire ++ wires fs := List.flatMap_cons

theorem WholeIn.nil : WholeIn [] [] [] := ⟨List.nil_prefix, List.nil_prefix, fun _ hmore _ => hmore⟩

theorem WholeIn.cut (fs : List Frame) (h : p.length < f.wire.length) : WholeIn p (f :: fs) [] := by
  refine ⟨List.nil_prefix, List.nil_prefix, ?_⟩
  intro more hmore hin
  cases more with
  | nil => exact List.nil_prefix
  | cons g more =>
    obtain ⟨rfl, -⟩ := List.cons_prefix_cons.mp hmore
    have hlen := hin.length_le
    rw [wires_cons, List.length_append] at hlen
    omega

theorem WholeIn.cons (f : Frame) (h : WholeIn p fs out) : WholeIn (f.wire ++ p) (f :: fs) (f :: out) := by
  refine ⟨List.cons_prefix_cons.mpr ⟨rfl, h.initial⟩, ?_, ?_⟩
  · rw [wires_cons]
    exact (List.prefix_append_right_inj _).mpr h.inside
  intro more hmore hin
  cases more with
  | nil => exact List.nil_prefix
  | cons g more =>
    obtain ⟨rfl, hrest⟩ := List.cons_prefix_cons.mp hmore
    rw [wires_cons] at hin
    exact List.cons_prefix_cons.mpr
      ⟨rfl, h.greatest more hrest ((List.prefix_append_right_inj _).mp hin)⟩

theorem readFrame_end (C : Prims) (stop : String) (h : cs.flatten = []) :
    ∃ cs', Answered (Delivers C stop) (readFrame : M C _).run cs (.error (.other stop)) cs' := by
  have hstep : Delivers C stop cs _ _ := .read 5 cs
  rw [Reader.readFull_nil h (by decide)] at hstep
  exact ⟨_, [⟨.readFull 5, .error stop⟩], .step (.here _), .cons hstep (.nil _)⟩

/-- **Of the beginning of a stream of frames the reader returns the whole frames and then an error**, and all
of them when the stream is complete. By induction on the frames: the first one is cut off, or it is read and
what is left is the beginning of the rest. -/
theorem Reads.iff_of_prefix (C : Prims) (stop : String) (hfits : ∀ f ∈ fs, f.Fits) (h : cs.flatten <+: wires fs) :
    ∃ out e, (∀ out' e', Reads C stop cs out' e' ↔ out' = out ∧ e' = e) ∧ WholeIn cs.flatten fs out ∧
      (cs.flatten = wires fs → out = fs ∧ e = .other stop) := by
  induction fs generalizing cs with
  | nil =>
    have hnil : cs.flatten = [] := List.prefix_nil.mp h
    obtain ⟨cs', hend⟩ := readFrame_end C stop hnil
    rw [hnil]
    exact ⟨[], _, fun out' e' => reads_iff_of_error hend, .nil, fun _ => ⟨rfl, rfl⟩⟩
  | cons f fs ih =>
    obtain ⟨body, henc, hfit⟩ := hfits f List.mem_cons_self
    have hwire := Frame.wire_eq henc
    rw [wires_cons] at h ⊢
    by_cases hshort : cs.flatten.length < f.wire.length
    · have hcut : cs.flatten <+: f.wire := List.prefix_of_prefix_length_le h (List.prefix_append _ _) hshort.le
      obtain ⟨e, cs', hfail⟩ := readFrame_cut C stop hfit (hwire ▸ hcut) (hwire ▸ hshort)
      refine ⟨[], e, fun out' e' => reads_iff_of_error hfail, .cut fs hshort, ?_⟩
      intro hall
      rw [hall, List.length_append] at hshort
      omega
    · obtain ⟨p, hp⟩ := List.prefix_of_prefix_length_le (List.prefix_append _ _) h (Nat.le_of_not_lt hshort)
      rw [← hp] at h
      obtain ⟨cs', hread, hrest⟩ := readFrame_whole C stop hfit (hp.symm.trans (by rw [hwire]))
      have hbegin : cs'.flatten <+: wires fs := by
        rw [hrest]
        exact (List.prefix_append_right_inj _).mp h
      obtain ⟨out, e, hiff, hwhole, hall⟩ := ih (fun g hg => hfits g (List.mem_cons_of_mem f hg)) hbegin
      rw [hrest] at hwhole hall
      refine ⟨f :: out, e, ?_, hp ▸ hwhole.cons f, ?_⟩
      · intro out' e'
        rw [reads_iff_of_ok hread (decodeFrame_encode henc hfit)]
        constructor
        · rintro ⟨out'', rfl, hreads⟩
          obtain ⟨rfl, rfl⟩ := (hiff _ _).mp hreads
          exact ⟨rfl, rfl⟩
        · rintro ⟨rfl, rfl⟩
          exact ⟨out, rfl, (hiff _ _).mpr ⟨rfl, rfl⟩⟩
      · intro heq
        rw [← hp] at heq
        obtain ⟨rfl, rfl⟩ := hall (List.append_cancel_left heq)
        exact ⟨rfl, rfl⟩

/-- A frame to be sent, with the state in which its write finds the pools: other writers and the collector may
have been there since the write before. -/
structure FrameWrite where
  frame : Frame
  pools : FramePools
  pick : Nat

def FrameWrite.run (w : FrameWrite) : Except Err (Option Bytes) := do
  let body ← w.frame.encode
  let sent ← writePooled w.pools w.pick w.frame.type body
  pure (sent.map Prod.fst)

theorem FrameWrite.run_eq {w : FrameWrite} (h : w.frame.Fits) : w.run = .ok (some w.frame.wire) := by
  obtain ⟨body, henc, hfit⟩ := h
  obtain ⟨pools', hsent⟩ := writePooled_eq w.pools w.pick w.frame.type hfit
  rw [Frame.wire_eq henc, FrameWrite.run, henc]
  show (writePooled w.pools w.pick w.frame.type body >>= fun sent => pure (sent.map Prod.fst)) = _
  rw [hsent]
  rfl

/-- **Framing is lossless.**  Frames whose encoders succeed within the limit are all written, through buffers
with any contents; read and decoded in any pieces, their stream gives the same frames in order and then the
error the stream ends with; a strict beginning of it gives the frames that are whole in it and then an error.
And an accepted body is the encoding of its frame. -/
theorem framing_lossless (C : Prims) :
    (∀ ws : List FrameWrite, (∀ w ∈ ws, w.frame.Fits) → ∃ sent : List Bytes,
      ws.map FrameWrite.run = sent.map (fun b => .ok (some b)) ∧
      (∀ stop cs, cs.flatten = sent.flatten →
        ∀ out e, Reads C stop cs out e ↔ out = ws.map FrameWrite.frame ∧ e = .other stop) ∧
      ∀ stop cs, cs.flatten <+: sent.flatten → cs.flatten ≠ sent.flatten →
        ∃ out err, (∀ out' e, Reads C stop cs out' e ↔ out' = out ∧ e = err) ∧
          WholeIn cs.flatten (ws.map FrameWrite.frame) out) ∧
    ∀ t body f, decodeFrame t body = .ok f → f.type = t ∧ f.encode = .ok body := by
  refine ⟨?_, fun t body f => encode_decodeFrame⟩
  intro ws hfits
  have hframes : ∀ f ∈ ws.map FrameWrite.frame, f.Fits := by
    intro f hf
    obtain ⟨w, hw, rfl⟩ := List.mem_map.mp hf
    exact hfits w hw
  have hstream : (ws.map fun w => w.frame.wire).flatten = wires (ws.map FrameWrite.frame) := by
    rw [wires, List.flatMap_def, List.map_map]
    rfl
  refine ⟨ws.map fun w => w.frame.wire, ?_, ?_, ?_⟩
  · rw [List.map_map]
    exact List.map_congr_left fun w hw => FrameWrite.run_eq (hfits w hw)
  · intro stop cs hcs
    rw [hstream] at hcs
    have hbegin : cs.flatten <+: wires (ws.map FrameWrite.frame) := ⟨[], by rw [List.append_nil, hcs]⟩
    obtain ⟨out, e, hiff, -, hall⟩ := Reads.iff_of_prefix C stop hframes hbegin
    obtain ⟨rfl, rfl⟩ := hall hcs
    exact hiff
  · intro stop cs hcs _
    rw [hstream] at hcs
    obtain ⟨out, e, hiff, hwhole, -⟩ := Reads.iff_of_prefix C stop hframes hcs
    exact ⟨out, e, hiff, hwhole⟩

def stalePools : FramePools where
  bufs i := [List.replicate (2 ^ (i + 5)) 0xFF]
  sized := by simp

/-- A REKEY and an ALERT, written through old buffers, come back from three pieces. -/
theorem framing_lossless_rekey :
    Reads samplePrims "EOF" [[6, 0], [0, 0, 1, 4, 7], [0, 0, 0, 6, 2, 0, 0, 0, 1, 9]]
      [.rekey ⟨4⟩, .alert ⟨⟨2⟩, [9]⟩] (.other "EOF") := by
  obtain ⟨sent, hsent, hall, -⟩ := (framing_lossless samplePrims).1
    [⟨.rekey ⟨4⟩, stalePools, 0⟩, ⟨.alert ⟨⟨2⟩, [9]⟩, stalePools, 0⟩] (by
      intro w hw
      rcases List.mem_cons.mp hw with rfl | hw
      · exact ⟨_, rfl, by decide⟩
      · obtain rfl := List.mem_singleton.mp hw
        exact ⟨_, rfl, by decide⟩)
  have hbytes : [[6, 0, 0, 0, 1, 4], [7, 0, 0, 0, 6, 2, 0, 0, 0, 1, 9]] = sent := by
    refine (List.map_inj_right (f := fun b => (.ok (some b) : Except Err (Option Bytes))) ?_).mp hsent
    intro a b h
    simpa using h
  exact (hall "EOF" _ (hbytes ▸ rfl) _ _).mpr ⟨rfl, rfl⟩

end Zap.Handshake
