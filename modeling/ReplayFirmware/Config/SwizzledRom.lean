import ReplayFirmware.Config.PlainRom
import ReplayFirmware.Config.Records
import ReplayFirmware.FileIO.MCh
import ReplayFirmware.Libc.Ctype

/-! Swizzled ROM uploads.

    The fourth field of a ROM line is a format: a letter takes a byte out of a group of the file, `0` and `1`
    put a constant, `_` leaves what is in the memory. The number of letters is the size of a group, and the
    size of the file is divided by it before anything else is known of the format. -/

namespace Config.Swizzled
open FatFs FileIO.MCh Libc Config.UploadRom

/-! ### The upload -/

/-- The waits for the FPGA, by the number of the transfer; all bytes arrive. -/
structure Waits where
  send : ℕ → Bool
  write : ℕ → Bool
  read : ℕ → Bool

def Waits.channel (waits : Waits) : Channel :=
  { Channel.faithful with
    sendTimeout := waits.send, writeTimeout := waits.write, readTimeout := waits.read }

/-- `read_tokens` -/
def readTokens : List UInt8 := chars "abcdefgh"

/-- `max_len` -/
def maxLen : ℕ := 8

/-- The bytes of a group, one for each letter. -/
def consume (swizzle : List UInt8) : ℕ := swizzle.countP fun c => tolower c ∈ readTokens

/-- The byte for a token, from the one that is in the buffer; `none` when it is an error. -/
def swizzleByte (consume : ℕ) (fbuf : List UInt8) (c b : UInt8) : Option UInt8 :=
  let token := tolower c
  if token = 0x5F then some b
  else if token = 0x30 then some 0x00
  else if token = 0x31 then some 0xff
  else if token ∈ readTokens then
    let pos := (token - 0x61).toNat
    if pos < consume then some (fbuf.getD pos 0) else none
  else none

/-- The loop over the tokens: the return code and the buffer. -/
def swizzleBuf (swizzle fbuf buf : List UInt8) : UInt8 × List UInt8 :=
  (if (swizzle.zipWith (swizzleByte (consume swizzle) fbuf) buf).any Option.isNone then 1 else 0,
    swizzle.zipWith (fun c b => (swizzleByte (consume swizzle) fbuf c b).getD b) buf)

/-- What is in the buffer before the tokens are taken: with `_` in the format what is in the memory, and
    what was there before when the read times out. -/
def readBuf (ch : Channel) (swizzle : List UInt8) (base : UInt32) (buf : List UInt8) (m : Dram) :
    List UInt8 × Dram :=
  if 0x5F ∈ swizzle then (memToBuf ch buf base m).2 else (buf, m)

/-- One group that was read; the codes of the transfers are ignored. -/
def group (ch : Channel) (swizzle : List UInt8) (base : UInt32) (fbuf buf : List UInt8) (m : Dram) :
    UInt8 × List UInt8 × Dram :=
  let (buf, m) := readBuf ch swizzle base buf m
  let (rc, buf) := swizzleBuf swizzle fbuf buf
  (rc, buf, if rc = 0 then (bufToMem ch buf base m).2 else m)

/-- The loop over the groups; `none` when it has not ended. -/
def swizzleLoop (ch : Channel) (swizzle : List UInt8) (base filesize : UInt32) :
    ℕ → UInt32 → UInt32 → UInt8 → List UInt8 → FIL → Dram → Option (UInt8 × Dram)
  | 0, _, _, _, _, _, _ => none
  | fuel + 1, consumed, offset, rc, buf, fSource, m =>
    if consumed < filesize then
      let (fbuf, f) := FF_Read fSource (consume swizzle)
      let rc := if fbuf.length ≠ consume swizzle then 1 else rc
      if rc ≠ 0 then some (rc, m)
      else
        let (rc, buf, m) := group ch swizzle (base + offset) fbuf buf m
        swizzleLoop ch swizzle base filesize fuel (consumed + UInt32.ofNat (consume swizzle))
          (offset + UInt32.ofNat swizzle.length) rc buf f m
    else some (rc, m)

/-- What becomes of an upload: a division by zero, or its end with a code. -/
inductive Outcome
  | divides
  | ends (rc : UInt8) (m : Dram)

/-- The swizzled path of `CFG_upload_rom`, with what happens to be in its buffer. -/
def uploadSwizzle (ch : Channel) (fuel : ℕ) (file : File) (base : UInt32) (swizzle buf : List UInt8)
    (m : Dram) : Option Outcome :=
  let (_, fSource) := FF_Seek (f_open file false) 0
  let filesize := UInt32.ofNat (FF_Size fSource)
  let rc : UInt8 := if swizzle.length % 2 ≠ 0 ∨ maxLen < swizzle.length then 1 else 0
  if consume swizzle = 0 then some .divides
  else
    let rc := if filesize.toNat % consume swizzle ≠ 0 then 1 else rc
    if rc = 0 then
      (swizzleLoop ch swizzle base filesize fuel 0 0 rc buf fSource m).map fun r => .ends r.1 r.2
    else some (.ends rc m)

/-! ### What it should do -/

/-- A token that means something: `_`, `0`, `1`, or a letter within the group. -/
def Token (consume : ℕ) (c : UInt8) : Prop :=
  c = 0x5F ∨ c = 0x30 ∨ c = 0x31 ∨ tolower c ∈ readTokens ∧ (tolower c - 0x61).toNat < consume

/-- A format of an even number of tokens. -/
structure Accepts (swizzle : List UInt8) : Prop where
  even : swizzle.length % 2 = 0
  short : swizzle.length ≤ 8
  tokens : ∀ c ∈ swizzle, Token (consume swizzle) c

/-- The groups of a file. -/
def groups (file : File) (swizzle : List UInt8) : ℕ := file.data.length / consume swizzle

/-- What belongs where a token of a group stands, from what was there before. -/
def imageByte (file : File) (swizzle : List UInt8) (g : ℕ) (c old : UInt8) : Option UInt8 :=
  if c = 0x5F then some old
  else if c = 0x30 then some 0x00
  else if c = 0x31 then some 0xFF
  else file.data[g * consume swizzle + (tolower c - 0x61).toNat]?

/-- The groups are in the memory, and everything else is as before. -/
structure Right (file : File) (base : UInt32) (swizzle : List UInt8) (mem : UInt32 → UInt8) (m : Dram) :
    Prop where
  place : ∀ g < groups file swizzle, ∀ i c, swizzle[i]? = some c → ∃ x : UInt32,
    x.toNat = base.toNat + (g * swizzle.length + i) ∧ some (m.mem x) = imageByte file swizzle g c (mem x)
  outside : ∀ x : UInt32, (∀ g < groups file swizzle, ∀ i < swizzle.length,
    x.toNat ≠ base.toNat + (g * swizzle.length + i)) → m.mem x = mem x

/-- Each group went to its place. -/
def Complete (waits : Waits) (file : File) (base : UInt32) (swizzle : List UInt8) (m : Dram) : Prop :=
  ∀ g < groups file swizzle, waits.send g = false ∧ ∃ bs, bs.length = swizzle.length ∧
    m.sent[g]? = some (base + UInt32.ofNat (g * swizzle.length), bs)

/-- Whatever is in the buffer and in the memory, the upload ends without a division by zero; a file of whole
    groups is in the memory afterwards in an accepted format; and zero is returned only when all groups were
    written. -/
def Uploads (waits : Waits) (file : File) (base : UInt32) (swizzle : List UInt8) : Prop :=
  ∀ (buf : List UInt8) (mem : UInt32 → UInt8), buf.length = swizzle.length → ∃ fuel rc m,
    uploadSwizzle waits.channel fuel file base swizzle buf ⟨mem, [], 0⟩ = some (.ends rc m) ∧
      (Accepts swizzle → consume swizzle ∣ file.data.length → Right file base swizzle mem m) ∧
      (rc = 0 → Complete waits file base swizzle m)

/-- The groups fit in the memory, the file is smaller than 4 GiB and can be read, and nothing times out. -/
structure Uploadable (waits : Waits) (file : File) (base : UInt32) (swizzle : List UInt8) : Prop where
  fits : base.toNat + groups file swizzle * swizzle.length ≤ 2 ^ 32
  small : file.data.length < 2 ^ 32
  readable : file.data.length ≤ file.readable
  sent : ∀ g < groups file swizzle, waits.send g = false
  read : 0x5F ∈ swizzle → ∀ g < groups file swizzle, waits.read g = false

/-- The format or the file is answered with one. -/
def Refused (file : File) (swizzle : List UInt8) : Prop :=
  swizzle.length % 2 ≠ 0 ∨ 8 < swizzle.length ∨ ¬consume swizzle ∣ (filesize file).toNat ∨
    filesize file ≠ 0 ∧ (¬Accepts swizzle ∨ file.readable < (filesize file).toNat)

/-! ### Tokens -/

theorem tolower_eq_iff {c d : UInt8} (hd : d < 0x61) (hup : isupper d = false) :
    tolower c = d ↔ c = d := by
  rw [tolower]
  split
  · next hc =>
    have hle : 0x41 ≤ c.toNat := UInt8.le_iff_toNat_le.mp (of_decide_eq_true hc).1
    have hge : c.toNat ≤ 0x5A := UInt8.le_iff_toNat_le.mp (of_decide_eq_true hc).2
    have hlow : ∀ n : Fin 0x5B, 0x41 ≤ n.val → 0x61 ≤ n.val ||| 0x20 := by decide
    have hor := hlow ⟨c.toNat, by omega⟩ hle
    refine iff_of_false (fun h => ?_) (fun h => ?_)
    · rw [UInt8.lt_iff_toNat_lt, ← h, UInt8.toNat_or] at hd
      have h61 : (0x61 : UInt8).toNat = 0x61 := rfl
      have h20 : (0x20 : UInt8).toNat = 0x20 := rfl
      rw [h61, h20] at hd
      exact absurd hd (by simp only at hor; omega)
    · rw [h, hup] at hc
      exact Bool.noConfusion hc
  · exact Iff.rfl

variable {swizzle fbuf buf : List UInt8} {c b : UInt8} {n : ℕ}

/-- The tokens of the code are those of the image. -/
theorem swizzleByte_eq : swizzleByte n fbuf c b =
    if c = 0x5F then some b
    else if c = 0x30 then some 0x00
    else if c = 0x31 then some 0xff
    else if tolower c ∈ readTokens ∧ (tolower c - 0x61).toNat < n then
      some (fbuf.getD (tolower c - 0x61).toNat 0)
    else none := by
  have h5F : tolower c = 0x5F ↔ c = 0x5F := tolower_eq_iff (by decide) (by decide)
  have h30 : tolower c = 0x30 ↔ c = 0x30 := tolower_eq_iff (by decide) (by decide)
  have h31 : tolower c = 0x31 ↔ c = 0x31 := tolower_eq_iff (by decide) (by decide)
  rw [swizzleByte]
  simp only [h5F, h30, h31]
  refine if_congr Iff.rfl rfl (if_congr Iff.rfl rfl (if_congr Iff.rfl rfl ?_))
  by_cases hletter : tolower c ∈ readTokens
  · simp only [hletter, true_and, if_true]
  · simp only [hletter, false_and, if_false]

theorem swizzleByte_isSome : (swizzleByte n fbuf c b).isSome ↔ Token n c := by
  rw [swizzleByte_eq, Token]
  split
  · next h => exact iff_of_true rfl (Or.inl h)
  · next h5F =>
    split
    · next h => exact iff_of_true rfl (Or.inr (Or.inl h))
    · next h30 =>
      split
      · next h => exact iff_of_true rfl (Or.inr (Or.inr (Or.inl h)))
      · next h31 =>
        rw [or_iff_right h5F, or_iff_right h30, or_iff_right h31]
        split
        · next h => exact iff_of_true rfl h
        · next h => exact iff_of_false (by decide) h

/-- Only `_` looks at the buffer. -/
theorem swizzleByte_other (hc : c ≠ 0x5F) (b b' : UInt8) :
    swizzleByte n fbuf c b = swizzleByte n fbuf c b' := by
  rw [swizzleByte_eq, swizzleByte_eq, if_neg hc, if_neg hc]

/-- The code of the loop over the tokens. -/
theorem swizzleBuf_code (hbuf : buf.length = swizzle.length) :
    (swizzleBuf swizzle fbuf buf).1 = 0 ↔ ∀ c ∈ swizzle, Token (consume swizzle) c := by
  have hall : (swizzle.zipWith (swizzleByte (consume swizzle) fbuf) buf).any Option.isNone = false ↔
      ∀ c ∈ swizzle, Token (consume swizzle) c := by
    rw [List.any_eq_false]
    constructor
    · intro h c hc
      obtain ⟨i, hi, rfl⟩ := List.mem_iff_getElem.mp hc
      have hi' : i < buf.length := by omega
      have hmem : swizzleByte (consume swizzle) fbuf swizzle[i] buf[i] ∈
          swizzle.zipWith (swizzleByte (consume swizzle) fbuf) buf := by
        rw [List.mem_iff_getElem]
        exact ⟨i, by rw [List.length_zipWith]; omega, List.getElem_zipWith⟩
      have hne := h _ hmem
      rwa [Bool.not_eq_true, Option.isNone_eq_false_iff, swizzleByte_isSome] at hne
    · intro h r hr
      obtain ⟨i, hi, rfl⟩ := List.mem_iff_getElem.mp hr
      rw [List.getElem_zipWith, Bool.not_eq_true, Option.isNone_eq_false_iff, swizzleByte_isSome]
      exact h _ (List.getElem_mem _)
  rw [← hall, swizzleBuf]
  simp only
  split
  · next h => exact iff_of_false (by decide) (by rw [h]; decide)
  · next h => exact iff_of_true rfl (Bool.not_eq_true _ ▸ h)

theorem swizzleBuf_code_one (h : (swizzleBuf swizzle fbuf buf).1 ≠ 0) :
    (swizzleBuf swizzle fbuf buf).1 = 1 := by
  rw [swizzleBuf] at *
  simp only at *
  split at h
  · next hany => rw [if_pos hany]
  · exact absurd rfl h

/-! ### The groups -/

section Groups

variable (waits : Waits) (file : File) (base : UInt32) (swizzle : List UInt8) (buf₀ : List UInt8)
  (mem : UInt32 → UInt8)

/-- The bytes of a group. -/
def groupAt (j : ℕ) : List UInt8 := (file.data.drop (j * consume swizzle)).take (consume swizzle)

def placeAt (j : ℕ) : UInt32 := base + UInt32.ofNat (j * swizzle.length)

/-- The buffer and the memory in front of a group, when all before were read. -/
def stateAt : ℕ → List UInt8 × Dram
  | 0 => (buf₀, ⟨mem, [], 0⟩)
  | j + 1 => (group waits.channel swizzle (placeAt base swizzle j) (groupAt file swizzle j)
      (stateAt j).1 (stateAt j).2).2

def bufAt (j : ℕ) : List UInt8 :=
  (readBuf waits.channel swizzle (placeAt base swizzle j)
    (stateAt waits file base swizzle buf₀ mem j).1 (stateAt waits file base swizzle buf₀ mem j).2).1

variable {waits file base swizzle buf₀ mem}

theorem readBuf_length (ch : Channel) (place : UInt32) (buf : List UInt8) (m : Dram) :
    (readBuf ch swizzle place buf m).1.length = buf.length := by
  rw [readBuf]
  split
  · rw [memToBuf]
    split
    · rfl
    · simp only [List.length_append, List.length_map, List.length_range, List.length_drop]
      omega
  · rfl

theorem readBuf_mem (ch : Channel) (place : UInt32) (buf : List UInt8) (m : Dram) :
    (readBuf ch swizzle place buf m).2.mem = m.mem ∧ (readBuf ch swizzle place buf m).2.sent = m.sent ∧
      (readBuf ch swizzle place buf m).2.got = if 0x5F ∈ swizzle then m.got + 1 else m.got := by
  rw [readBuf]
  split
  · refine ⟨memToBuf_mem .., memToBuf_sent .., ?_⟩
    rw [memToBuf]
    split <;> rfl
  · exact ⟨rfl, rfl, rfl⟩

/-- What `_` finds in the buffer. -/
theorem readBuf_getElem {place : UInt32} {m : Dram} (hrmw : 0x5F ∈ swizzle)
    (hlen : buf.length ≤ memBufSize)
    {i : ℕ} (hi : i < buf.length) : (readBuf waits.channel swizzle place buf m).1[i]? =
      if waits.read m.got then buf[i]? else some (m.mem (place + UInt32.ofNat i)) := by
  rw [readBuf, if_pos hrmw, memToBuf]
  rw [show waits.channel.readTimeout m.got = waits.read m.got from rfl]
  split
  · rfl
  · rw [List.getElem?_append_left (by simp only [List.length_map, List.length_range]; omega),
      List.getElem?_map, List.getElem?_range (by omega)]
    rfl

theorem group_code (ch : Channel) (place : UInt32) (fbuf buf : List UInt8) (m : Dram) :
    (group ch swizzle place fbuf buf m).1 =
      (swizzleBuf swizzle fbuf (readBuf ch swizzle place buf m).1).1 := rfl

theorem group_length (ch : Channel) {place : UInt32} {m : Dram} (hbuf : buf.length = swizzle.length) :
    (group ch swizzle place fbuf buf m).2.1.length = swizzle.length := by
  rw [group]
  simp only [swizzleBuf, List.length_zipWith, readBuf_length]
  omega

theorem stateAt_length (hbuf : buf₀.length = swizzle.length) :
    ∀ j, (stateAt waits file base swizzle buf₀ mem j).1.length = swizzle.length
  | 0 => hbuf
  | j + 1 => group_length _ (stateAt_length hbuf j)

theorem bufAt_length (hbuf : buf₀.length = swizzle.length) (j : ℕ) :
    (bufAt waits file base swizzle buf₀ mem j).length = swizzle.length :=
  (readBuf_length ..).trans (stateAt_length hbuf j)

/-- The bytes that are sent for a group. -/
def sentAt (waits : Waits) (file : File) (base : UInt32) (swizzle buf₀ : List UInt8)
    (mem : UInt32 → UInt8)
    (j : ℕ) : List UInt8 :=
  swizzle.zipWith (fun c b => (swizzleByte (consume swizzle) (groupAt file swizzle j) c b).getD b)
    (bufAt waits file base swizzle buf₀ mem j)

/-- One more group, in an accepted format. -/
theorem stateAt_succ (hacc : Accepts swizzle) (hbuf : buf₀.length = swizzle.length) (j : ℕ) :
    (group waits.channel swizzle (placeAt base swizzle j) (groupAt file swizzle j)
      (stateAt waits file base swizzle buf₀ mem j).1
      (stateAt waits file base swizzle buf₀ mem j).2).1 = 0 ∧
    stateAt waits file base swizzle buf₀ mem (j + 1) =
      (sentAt waits file base swizzle buf₀ mem j,
        (bufToMem waits.channel (sentAt waits file base swizzle buf₀ mem j) (placeAt base swizzle j)
          (readBuf waits.channel swizzle (placeAt base swizzle j)
            (stateAt waits file base swizzle buf₀ mem j).1
            (stateAt waits file base swizzle buf₀ mem j).2).2).2) := by
  have hcode := (@swizzleBuf_code swizzle (groupAt file swizzle j)
      (bufAt waits file base swizzle buf₀ mem j)
    (bufAt_length hbuf j)).mpr hacc.tokens
  refine ⟨hcode, ?_⟩
  rw [stateAt, group]
  simp only
  rw [bufAt] at hcode
  rw [if_pos hcode]
  rfl

theorem sentAt_length (hbuf : buf₀.length = swizzle.length) (j : ℕ) :
    (sentAt waits file base swizzle buf₀ mem j).length = swizzle.length := by
  rw [sentAt, List.length_zipWith, bufAt_length hbuf, Nat.min_self]

/-- The transfers that were made. -/
theorem stateAt_sent (hacc : Accepts swizzle) (hbuf : buf₀.length = swizzle.length) : ∀ j,
    (stateAt waits file base swizzle buf₀ mem j).2.sent =
        (List.range j).map
          (fun g => (placeAt base swizzle g, sentAt waits file base swizzle buf₀ mem g)) ∧
      (0x5F ∈ swizzle → (stateAt waits file base swizzle buf₀ mem j).2.got = j)
  | 0 => ⟨rfl, fun _ => rfl⟩
  | j + 1 => by
    obtain ⟨hsent, hgot⟩ := stateAt_sent hacc hbuf j
    obtain ⟨-, hsame, hcount⟩ := @readBuf_mem swizzle waits.channel (placeAt base swizzle j)
      (stateAt waits file base swizzle buf₀ mem j).1 (stateAt waits file base swizzle buf₀ mem j).2
    have hshort := hacc.short
    rw [(stateAt_succ hacc hbuf j).2]
    refine ⟨?_, fun hrmw => ?_⟩
    · rw [bufToMem_sent, hsame, hsent, List.range_succ, List.map_append]
      rw [List.take_of_length_le (by rw [sentAt_length hbuf, memBufSize]; omega)]
      rfl
    · refine Eq.trans ?_ (congrArg Nat.succ (hgot hrmw))
      rw [if_pos hrmw] at hcount
      exact hcount

/-! ### The memory -/

theorem sub_place (x : UInt32) {j : ℕ} (hj : j * swizzle.length ≤ 2 ^ 32) :
    (x - placeAt base swizzle j).toNat =
      ((x - base).toNat + (2 ^ 32 - j * swizzle.length)) % 2 ^ 32 := by
  have hb := base.toNat_lt
  have hx := x.toNat_lt
  simp only [placeAt, UInt32.toNat_sub, UInt32.toNat_add, UInt32.toNat_ofNat']
  generalize j * swizzle.length = o at *
  omega

/-- What a group does to the memory: its bytes go to its place, unless their wait times out. -/
theorem stateAt_mem (hacc : Accepts swizzle) (hbuf : buf₀.length = swizzle.length) {j : ℕ}
    (hfit : (j + 1) * swizzle.length ≤ 2 ^ 32) (x : UInt32) :
    (stateAt waits file base swizzle buf₀ mem (j + 1)).2.mem x =
      if waits.send j = false ∧ j * swizzle.length ≤ (x - base).toNat ∧
          (x - base).toNat < (j + 1) * swizzle.length then
        (sentAt waits file base swizzle buf₀ mem j).getD ((x - base).toNat - j * swizzle.length) 0
      else (stateAt waits file base swizzle buf₀ mem j).2.mem x := by
  have hshort := hacc.short
  have hlt := (x - base).toNat_lt
  have hlen := @sentAt_length waits file base swizzle buf₀ mem hbuf j
  obtain ⟨hsent, -⟩ := @stateAt_sent waits file base swizzle buf₀ mem hacc hbuf j
  obtain ⟨hsame, hkept, -⟩ := @readBuf_mem swizzle waits.channel (placeAt base swizzle j)
    (stateAt waits file base swizzle buf₀ mem j).1 (stateAt waits file base swizzle buf₀ mem j).2
  rw [Nat.succ_mul] at *
  have hsub := @sub_place base swizzle x j (by omega)
  rw [(stateAt_succ hacc hbuf j).2, bufToMem, List.take_of_length_le (by rw [hlen, memBufSize]; omega)]
  simp only
  rw [hkept, hsent, hsame, List.length_map, List.length_range,
    show waits.channel.sendTimeout j = waits.send j from rfl]
  cases waits.send j with
  | true => rw [if_pos rfl, if_neg (by rintro ⟨h, -⟩; exact Bool.noConfusion h)]
  | false =>
    rw [if_neg (by decide), stored, hsub, hlen]
    generalize (x - base).toNat = k at *
    generalize j * swizzle.length = o at *
    by_cases hin : o ≤ k ∧ k < o + swizzle.length
    · rw [if_pos (by omega), if_pos ⟨rfl, hin⟩, show (k + (2 ^ 32 - o)) % 2 ^ 32 = k - o by omega]
      rfl
    · rw [if_neg (by omega), if_neg (by tauto)]

theorem stateAt_before (hacc : Accepts swizzle) (hbuf : buf₀.length = swizzle.length) {x : UInt32} : ∀ j,
    j * swizzle.length ≤ 2 ^ 32 → j * swizzle.length ≤ (x - base).toNat →
      (stateAt waits file base swizzle buf₀ mem j).2.mem x = mem x
  | 0, _, _ => rfl
  | j + 1, hfit, hx => by
    have hle : j * swizzle.length ≤ (j + 1) * swizzle.length := Nat.mul_le_mul_right _ (Nat.le_succ j)
    rw [stateAt_mem hacc hbuf hfit, if_neg (by omega)]
    exact stateAt_before hacc hbuf j (by omega) (by omega)

theorem stateAt_after (hacc : Accepts swizzle) (hbuf : buf₀.length = swizzle.length) {x : UInt32} {j : ℕ}
    (hx : (x - base).toNat < j * swizzle.length) : ∀ d, (j + d) * swizzle.length ≤ 2 ^ 32 →
      (stateAt waits file base swizzle buf₀ mem (j + d)).2.mem x =
        (stateAt waits file base swizzle buf₀ mem j).2.mem x
  | 0, _ => rfl
  | d + 1, hfit => by
    have hle : j * swizzle.length ≤ (j + d) * swizzle.length :=
      Nat.mul_le_mul_right _ (Nat.le_add_right j d)
    have hup : (j + d) * swizzle.length ≤ (j + d + 1) * swizzle.length :=
      Nat.mul_le_mul_right _ (Nat.le_succ _)
    rw [← Nat.add_assoc] at *
    rw [stateAt_mem hacc hbuf hfit, if_neg (by omega)]
    exact stateAt_after hacc hbuf hx d (by omega)

theorem bufAt_getElem (hacc : Accepts swizzle) (hbuf : buf₀.length = swizzle.length)
    (hrmw : 0x5F ∈ swizzle)
    {i : ℕ} (hi : i < swizzle.length) (j : ℕ) : (bufAt waits file base swizzle buf₀ mem j)[i]? =
      if waits.read j then (stateAt waits file base swizzle buf₀ mem j).1[i]?
      else some ((stateAt waits file base swizzle buf₀ mem j).2.mem
        (placeAt base swizzle j + UInt32.ofNat i)) := by
  have hlen := @stateAt_length waits file base swizzle buf₀ mem hbuf j
  have hshort := hacc.short
  obtain ⟨-, hgot⟩ := @stateAt_sent waits file base swizzle buf₀ mem hacc hbuf j
  rw [bufAt, readBuf_getElem hrmw (by rw [hlen, memBufSize]; omega) (by rw [hlen]; exact hi), hgot hrmw]

theorem sentAt_getElem {i : ℕ} (hc : swizzle[i]? = some c) (j : ℕ) :
    (sentAt waits file base swizzle buf₀ mem j)[i]? = (bufAt waits file base swizzle buf₀ mem j)[i]?.map
      fun b => (swizzleByte (consume swizzle) (groupAt file swizzle j) c b).getD b := by
  rw [sentAt, List.getElem?_zipWith, hc]
  cases (bufAt waits file base swizzle buf₀ mem j)[i]? <;> rfl

/-- The byte of a token is the one that belongs there. -/
theorem swizzleByte_image {g : ℕ} (htoken : Token (consume swizzle) c)
    (hfile : (g + 1) * consume swizzle ≤ file.data.length) (b : UInt8) :
    swizzleByte (consume swizzle) (groupAt file swizzle g) c b = imageByte file swizzle g c b := by
  rw [Nat.succ_mul] at hfile
  rw [swizzleByte_eq, imageByte]
  refine if_ctx_congr Iff.rfl (fun _ => rfl) fun h5F => if_ctx_congr Iff.rfl (fun _ => rfl) fun h30 =>
    if_ctx_congr Iff.rfl (fun _ => rfl) fun h31 => ?_
  have hletter := or_iff_right h31 |>.mp (or_iff_right h30 |>.mp (or_iff_right h5F |>.mp htoken))
  rw [if_pos hletter, groupAt, List.getD_eq_getElem?_getD, List.getElem?_take_of_lt hletter.2,
    List.getElem?_drop, List.getElem?_eq_getElem (by omega)]
  rfl

theorem sub_base {x : UInt32} {k : ℕ} (h : x.toNat = base.toNat + k) : (x - base).toNat = k := by
  have hx := x.toNat_lt
  have hb := base.toNat_lt
  rw [UInt32.toNat_sub]
  omega

theorem place_add {g i : ℕ} {x : UInt32} (h : x.toNat = base.toNat + (g * swizzle.length + i)) :
    placeAt base swizzle g + UInt32.ofNat i = x := by
  have hx := x.toNat_lt
  have hb := base.toNat_lt
  rw [← UInt32.toNat_inj, placeAt]
  simp only [UInt32.toNat_add, UInt32.toNat_ofNat']
  generalize g * swizzle.length = o at *
  omega

/-- A group in time is in the memory. -/
theorem stateAt_image (hacc : Accepts swizzle) (hbuf : buf₀.length = swizzle.length) {g i : ℕ}
    {x : UInt32}
    (hx : x.toNat = base.toNat + (g * swizzle.length + i)) (hc : swizzle[i]? = some c)
    (hfit : (g + 1) * swizzle.length ≤ 2 ^ 32) (hfile : (g + 1) * consume swizzle ≤ file.data.length)
    (hsend : waits.send g = false) (hread : 0x5F ∈ swizzle → waits.read g = false) :
    some ((stateAt waits file base swizzle buf₀ mem (g + 1)).2.mem x) =
      imageByte file swizzle g c (mem x) := by
  obtain ⟨hi, hget⟩ := List.getElem?_eq_some_iff.mp hc
  have htoken := hacc.tokens c (hget ▸ List.getElem_mem hi)
  have hsub := sub_base hx
  have hlen := @sentAt_length waits file base swizzle buf₀ mem hbuf g
  have hblen := @bufAt_length waits file base swizzle buf₀ mem hbuf g
  have hstep : (g + 1) * swizzle.length = g * swizzle.length + swizzle.length := Nat.succ_mul ..
  rw [stateAt_mem hacc hbuf hfit, hsub, if_pos ⟨hsend, by omega, by omega⟩, Nat.add_sub_cancel_left]
  have hsome : (sentAt waits file base swizzle buf₀ mem g)[i]? =
      some ((sentAt waits file base swizzle buf₀ mem g).getD i 0) := by
    rw [List.getD_eq_getElem?_getD, List.getElem?_eq_getElem (by omega)]
    rfl
  rw [← hsome, sentAt_getElem hc]
  have himage : ∀ b, swizzleByte (consume swizzle) (groupAt file swizzle g) c b =
      imageByte file swizzle g c b := swizzleByte_image htoken hfile
  have hbyte : ∀ b b', (c = 0x5F → b = b') →
      some ((swizzleByte (consume swizzle) (groupAt file swizzle g) c b).getD b) =
        imageByte file swizzle g c b' := by
    intro b b' hb
    have hisSome : (swizzleByte (consume swizzle) (groupAt file swizzle g) c b).isSome :=
      swizzleByte_isSome.mpr htoken
    obtain ⟨r, hr⟩ := Option.isSome_iff_exists.mp hisSome
    rw [← himage, hr, Option.getD_some, ← hr]
    by_cases h5F : c = 0x5F
    · rw [hb h5F]
    · exact swizzleByte_other h5F b b'
  rw [List.getElem?_eq_getElem (by omega), Option.map_some]
  refine hbyte _ _ fun h5F => ?_
  have hrmw : 0x5F ∈ swizzle := h5F ▸ hget ▸ List.getElem_mem hi
  have hfound := @bufAt_getElem waits file base swizzle buf₀ mem hacc hbuf hrmw i hi g
  rw [hread hrmw, if_neg (by decide), place_add hx, List.getElem?_eq_getElem (by omega),
    Option.some_inj] at hfound
  rw [hfound]
  exact stateAt_before hacc hbuf g (by omega) (by omega)

theorem place_sub {g i : ℕ} (h : g * swizzle.length + i < 2 ^ 32) :
    (placeAt base swizzle g + UInt32.ofNat i - base).toNat = g * swizzle.length + i := by
  have hb := base.toNat_lt
  simp only [placeAt, UInt32.toNat_sub, UInt32.toNat_add, UInt32.toNat_ofNat']
  generalize g * swizzle.length = o at *
  omega

/-- A memory with one byte that is not zero. -/
def oneAt (y : UInt32) : UInt32 → UInt8 := fun x => if x = y then 1 else 0

/-- As long as that byte is not read, the buffer holds zeros where the memory is to be kept. -/
theorem stateAt_zero (hacc : Accepts swizzle) (hbuf : buf₀ = List.replicate swizzle.length 0) {y : UInt32}
    {g : ℕ} (hy : g * swizzle.length ≤ (y - base).toNat) {i : ℕ} (hc : swizzle[i]? = some 0x5F) : ∀ j ≤ g,
      (stateAt waits file base swizzle buf₀ (oneAt y) j).1[i]? = some 0
  | 0, _ => by
    obtain ⟨hi, -⟩ := List.getElem?_eq_some_iff.mp hc
    rw [stateAt, hbuf, List.getElem?_replicate, if_pos hi]
  | j + 1, hj => by
    have ih := stateAt_zero hacc hbuf hy hc j (by omega)
    obtain ⟨hi, hget⟩ := List.getElem?_eq_some_iff.mp hc
    have hrmw : 0x5F ∈ swizzle := hget ▸ List.getElem_mem hi
    have hlen : buf₀.length = swizzle.length := by rw [hbuf, List.length_replicate]
    have hlt := (y - base).toNat_lt
    have hup : (j + 1) * swizzle.length ≤ g * swizzle.length := Nat.mul_le_mul_right _ hj
    rw [Nat.succ_mul] at hup
    rw [(stateAt_succ hacc hlen j).2, sentAt_getElem hc, bufAt_getElem hacc hlen hrmw hi]
    split
    · rw [ih]
      rfl
    · have hsub := @place_sub base swizzle j i (by omega)
      rw [stateAt_before hacc hlen j (by omega) (by rw [hsub]; omega), oneAt, if_neg]
      · rfl
      · intro heq
        rw [heq] at hsub
        omega

/-- A read that times out costs a byte that is to be kept. -/
theorem stateAt_lost (hacc : Accepts swizzle) (hbuf : buf₀ = List.replicate swizzle.length 0) {y : UInt32}
    {g i : ℕ} (hy : y.toNat = base.toNat + (g * swizzle.length + i)) (hc : swizzle[i]? = some 0x5F)
    (hfit : (g + 1) * swizzle.length ≤ 2 ^ 32) (hsend : waits.send g = false)
    (hread : waits.read g = true) :
    (stateAt waits file base swizzle buf₀ (oneAt y) (g + 1)).2.mem y = 0 := by
  obtain ⟨hi, hget⟩ := List.getElem?_eq_some_iff.mp hc
  have hrmw : 0x5F ∈ swizzle := hget ▸ List.getElem_mem hi
  have hlen : buf₀.length = swizzle.length := by rw [hbuf, List.length_replicate]
  have hsub := sub_base hy
  have hstale := @stateAt_zero waits file base swizzle buf₀ hacc hbuf y g (by omega) i hc g (le_refl g)
  rw [Nat.succ_mul] at hfit
  rw [stateAt_mem hacc hlen (by rw [Nat.succ_mul]; exact hfit), hsub,
    if_pos ⟨hsend, by omega, by rw [Nat.succ_mul]; omega⟩, Nat.add_sub_cancel_left,
      List.getD_eq_getElem?_getD,
    sentAt_getElem hc, bufAt_getElem hacc hlen hrmw hi, hread, if_pos rfl, hstale]
  rfl

/-! ### The loop -/

theorem consumed_next (j n : ℕ) :
    UInt32.ofNat (j * n) + UInt32.ofNat n = UInt32.ofNat ((j + 1) * n) := by
  rw [Nat.succ_mul, UInt32.ofNat_add]

/-- A group is read when the file can be read so far. -/
theorem group_read (hpos : 0 < consume swizzle) {f : FIL} (h : OpenOn file f) (he : f.err = false) {j : ℕ}
    (hptr : f.fptr = j * consume swizzle) (hfile : (j + 1) * consume swizzle ≤ file.data.length) :
    ((j + 1) * consume swizzle ≤ file.readable →
      (FF_Read f (consume swizzle)).1 = groupAt file swizzle j ∧
        (FF_Read f (consume swizzle)).1.length = consume swizzle ∧
        OpenOn file (FF_Read f (consume swizzle)).2 ∧ (FF_Read f (consume swizzle)).2.err = false ∧
        (FF_Read f (consume swizzle)).2.fptr = (j + 1) * consume swizzle) ∧
      (¬(j + 1) * consume swizzle ≤ file.readable →
        (FF_Read f (consume swizzle)).1.length ≠ consume swizzle) := by
  obtain ⟨hopen, herr, hfptr⟩ := h.read (consume swizzle)
  obtain ⟨hblock, -⟩ := read_block h.ok (consume swizzle)
  have hlen := length_block h.ok (Nat.min_le_right (consume swizzle) (reach f))
  have hreach : reach f = min file.data.length file.readable - j * consume swizzle := by
    rw [reach, he, h.objsize, h.readable, hptr]
    rfl
  rw [Nat.succ_mul] at *
  constructor
  · intro hread
    have hmin : min (consume swizzle) (reach f) = consume swizzle := by omega
    rw [hmin] at hblock herr hfptr hlen
    refine ⟨?_, by rw [hblock, hlen], hopen, ?_, by rw [hfptr, hptr]⟩
    · rw [hblock, h.data, hptr, groupAt]
    · rw [← Bool.not_eq_true, herr, he, h.objsize]
      simp only [Bool.false_eq_true, false_or]
      omega
  · intro hread
    rw [hblock, hlen]
    omega

/-- The loop goes on as far as the file can be read. -/
theorem swizzleLoop_stateAt (hacc : Accepts swizzle) (hbuf : buf₀.length = swizzle.length)
    (hpos : 0 < consume swizzle) {n : ℕ} (hsize : (filesize file).toNat = n * consume swizzle) :
    ∀ (r j : ℕ) {f : FIL}, j + r = n → OpenOn file f → f.err = false → f.fptr = j * consume swizzle →
      j * consume swizzle ≤ file.readable →
      swizzleLoop waits.channel swizzle base (filesize file) (r + 1) (UInt32.ofNat (j * consume swizzle))
          (UInt32.ofNat (j * swizzle.length)) 0 (stateAt waits file base swizzle buf₀ mem j).1 f
          (stateAt waits file base swizzle buf₀ mem j).2 =
        some (if n * consume swizzle ≤ file.readable then
            (0, (stateAt waits file base swizzle buf₀ mem n).2)
          else (1, (stateAt waits file base swizzle buf₀ mem (file.readable / consume swizzle)).2))
  | 0, j, f, hj, _, _, _, hread => by
    obtain rfl : j = n := hj
    have hstop : ¬UInt32.ofNat (j * consume swizzle) < filesize file := by
      rw [← hsize, UInt32.ofNat_toNat]
      exact UInt32.lt_irrefl _
    rw [swizzleLoop, if_neg hstop, if_pos hread]
  | r + 1, j, f, hj, h, he, hptr, hread => by
    have hlt := (filesize file).toNat_lt
    have hfile := @filesize_le file
    have hup : (j + 1) * consume swizzle ≤ n * consume swizzle := Nat.mul_le_mul_right _ (by omega)
    have hstep : (j + 1) * consume swizzle = j * consume swizzle + consume swizzle := Nat.succ_mul ..
    have hgo : UInt32.ofNat (j * consume swizzle) < filesize file := by
      rw [UInt32.lt_iff_toNat_lt, UInt32.toNat_ofNat_of_lt' (show j * consume swizzle < 2 ^ 32 by omega)]
      omega
    obtain ⟨hgood, hbad⟩ := group_read hpos h he hptr (by omega)
    rw [swizzleLoop, if_pos hgo]
    simp only
    by_cases hmore : (j + 1) * consume swizzle ≤ file.readable
    · obtain ⟨hbytes, hlen, hopen, herr, hnext⟩ := hgood hmore
      obtain ⟨hcode, -⟩ := @stateAt_succ waits file base swizzle buf₀ mem hacc hbuf j
      have hrest := swizzleLoop_stateAt hacc hbuf hpos hsize r (j + 1) (by omega) hopen herr hnext hmore
      rw [if_neg (not_not.mpr hlen), if_neg (not_not.mpr rfl), hbytes, consumed_next, consumed_next]
      rw [stateAt] at hrest
      rw [placeAt] at hcode hrest
      rw [hcode]
      exact hrest
    · have hdiv : file.readable / consume swizzle = j := by
        rw [Nat.div_eq_iff hpos]
        omega
      rw [if_pos (hbad hmore), if_pos (by decide), if_neg (by omega), hdiv]

end Groups

/-- A longer run changes nothing. -/
theorem swizzleLoop_mono {ch : Channel} {base fs : UInt32} : ∀ {fuel : ℕ} {consumed offset : UInt32}
    {rc : UInt8} {buf : List UInt8} {f : FIL} {m : Dram} {r : UInt8 × Dram},
    swizzleLoop ch swizzle base fs fuel consumed offset rc buf f m = some r → ∀ d,
      swizzleLoop ch swizzle base fs (fuel + d) consumed offset rc buf f m = some r
  | 0, _, _, _, _, _, _, _, h, _ => by cases h
  | fuel + 1, consumed, offset, rc, buf, f, m, r, h, d => by
    rw [show fuel + 1 + d = fuel + d + 1 by omega]
    rw [swizzleLoop] at h ⊢
    split at h
    · next hgo =>
      rw [if_pos hgo]
      simp only at h ⊢
      generalize (if (FF_Read f (consume swizzle)).1.length ≠ consume swizzle then 1 else rc) = rc' at h ⊢
      by_cases hzero : rc' ≠ 0
      · rw [if_pos hzero] at h ⊢
        exact h
      · rw [if_neg hzero] at h ⊢
        exact swizzleLoop_mono h d
    · next hstop =>
      rw [if_neg hstop]
      exact h

/-! ### The whole upload -/

section Upload

variable {waits : Waits} {file : File} {base : UInt32} {buf₀ : List UInt8} {mem : UInt32 → UInt8}
    {m : Dram}

/-- What the checks before the loop let through. -/
def Checked (file : File) (swizzle : List UInt8) : Prop :=
  swizzle.length % 2 = 0 ∧ swizzle.length ≤ 8 ∧ consume swizzle ∣ (filesize file).toNat

/-- And the code behind them. -/
def checkCode (file : File) (swizzle : List UInt8) : UInt8 :=
  if (filesize file).toNat % consume swizzle ≠ 0 then 1
  else if swizzle.length % 2 ≠ 0 ∨ maxLen < swizzle.length then 1 else 0

theorem checkCode_zero (h : Checked file swizzle) : checkCode file swizzle = 0 := by
  obtain ⟨heven, hshort, hdvd⟩ := h
  rw [checkCode, if_neg (not_not.mpr (Nat.mod_eq_zero_of_dvd hdvd)), if_neg]
  rw [maxLen]
  omega

theorem checkCode_one (h : ¬Checked file swizzle) : checkCode file swizzle = 1 := by
  rw [checkCode]
  split
  · rfl
  · next hmod =>
    rw [if_pos]
    by_contra hno
    rw [maxLen] at hno
    exact h ⟨by omega, by omega, Nat.dvd_of_mod_eq_zero (not_not.mp hmod)⟩

theorem uploadSwizzle_eq (ch : Channel) (fuel : ℕ) : uploadSwizzle ch fuel file base swizzle buf₀ m =
    if consume swizzle = 0 then some .divides
    else if checkCode file swizzle = 0 then
      (swizzleLoop ch swizzle base (filesize file) fuel 0 0 (checkCode file swizzle) buf₀
      (f_open file false)
        m).map fun r => .ends r.1 r.2
    else some (.ends (checkCode file swizzle) m) := rfl

theorem uploadSwizzle_divides (ch : Channel) (h : consume swizzle = 0) (fuel : ℕ) :
    uploadSwizzle ch fuel file base swizzle buf₀ m = some .divides := by
  rw [uploadSwizzle_eq, if_pos h]

theorem uploadSwizzle_checked {ch : Channel} (hne : consume swizzle ≠ 0) (h : Checked file swizzle)
    (fuel : ℕ) :
    uploadSwizzle ch fuel file base swizzle buf₀ m =
      (swizzleLoop ch swizzle base (filesize file) fuel 0 0 0 buf₀ (f_open file false) m).map
        fun r => .ends r.1 r.2 := by
  rw [uploadSwizzle_eq, if_neg hne, checkCode_zero h, if_pos rfl]

theorem uploadSwizzle_unchecked {ch : Channel} (hne : consume swizzle ≠ 0) (h : ¬Checked file swizzle)
    (fuel : ℕ) : uploadSwizzle ch fuel file base swizzle buf₀ m = some (.ends 1 m) := by
  rw [uploadSwizzle_eq, if_neg hne, checkCode_one h, if_neg (by decide)]

theorem uploadSwizzle_unique {ch : Channel} {fuel fuel' : ℕ} {r r' : Outcome}
    (h : uploadSwizzle ch fuel file base swizzle buf₀ m = some r)
    (h' : uploadSwizzle ch fuel' file base swizzle buf₀ m = some r') : r = r' := by
  by_cases hzero : consume swizzle = 0
  · rw [uploadSwizzle_divides ch hzero] at h h'
    exact Option.some_inj.mp (h.symm.trans h')
  by_cases hcheck : Checked file swizzle
  · rw [uploadSwizzle_checked hzero hcheck] at h h'
    obtain ⟨s, hs, rfl⟩ := Option.map_eq_some_iff.mp h
    obtain ⟨s', hs', rfl⟩ := Option.map_eq_some_iff.mp h'
    have hlong := swizzleLoop_mono hs fuel'
    have hlong' := swizzleLoop_mono hs' fuel
    rw [Nat.add_comm, hlong, Option.some_inj] at hlong'
    rw [hlong']
  · rw [uploadSwizzle_unchecked hzero hcheck] at h h'
    exact Option.some_inj.mp (h.symm.trans h')

/-- An accepted format, and a size that is one of whole groups. -/
theorem uploadSwizzle_accepts (hne : consume swizzle ≠ 0) (hacc : Accepts swizzle)
    (hdvd : consume swizzle ∣ (filesize file).toNat) (hbuf : buf₀.length = swizzle.length) : ∃ fuel,
    uploadSwizzle waits.channel fuel file base swizzle buf₀ ⟨mem, [], 0⟩ =
      some (if (filesize file).toNat ≤ file.readable then
          .ends 0 (stateAt waits file base swizzle buf₀ mem ((filesize file).toNat / consume swizzle)).2
        else .ends 1 (stateAt waits file base swizzle buf₀ mem (file.readable / consume swizzle)).2) := by
  have hsize := (Nat.div_mul_cancel hdvd).symm
  have hloop := @swizzleLoop_stateAt waits file base swizzle buf₀ mem hacc hbuf
      (Nat.pos_of_ne_zero hne) _ hsize
    _ 0 (f_open file false) (Nat.zero_add _) (openOn_open file) rfl (Nat.zero_mul _).symm
    (by rw [Nat.zero_mul]; exact Nat.zero_le _)
  rw [Nat.zero_mul, Nat.zero_mul, ← hsize] at hloop
  refine ⟨(filesize file).toNat / consume swizzle + 1,
    (uploadSwizzle_checked hne ⟨hacc.even, hacc.short, hdvd⟩ _).trans ?_⟩
  refine (congrArg (Option.map fun r : UInt8 × Dram => Outcome.ends r.1 r.2) hloop).trans ?_
  rw [Option.map_some]
  split <;> rfl

/-- A format with a token that means nothing, and a file that is not empty. -/
theorem uploadSwizzle_token (hne : consume swizzle ≠ 0) (hcheck : Checked file swizzle)
    (hacc : ¬Accepts swizzle) (hsize : filesize file ≠ 0) (hbuf : buf₀.length = swizzle.length) :
    ∃ fuel rc m',
      uploadSwizzle waits.channel fuel file base swizzle buf₀ m = some (.ends rc m') ∧ rc ≠ 0 := by
  have hgo : (0 : UInt32) < filesize file := by
    rw [UInt32.lt_iff_toNat_lt]
    exact Nat.pos_of_ne_zero fun h => hsize (UInt32.toNat_inj.mp h)
  have hbad : ∀ fbuf, (group waits.channel swizzle (base + 0) fbuf buf₀ m).1 = 1 := by
    intro fbuf
    rw [group_code]
    refine swizzleBuf_code_one fun h => hacc ⟨hcheck.1, hcheck.2.1, ?_⟩
    exact (swizzleBuf_code ((readBuf_length ..).trans hbuf)).mp h
  have hloop : ∃ rc m', swizzleLoop waits.channel swizzle base (filesize file) 2 0 0 0 buf₀
      (f_open file false) m = some (rc, m') ∧ rc ≠ 0 := by
    rw [swizzleLoop, if_pos hgo]
    simp only
    by_cases hread : (FF_Read (f_open file false) (consume swizzle)).1.length ≠ consume swizzle
    · rw [if_pos hread, if_pos (by decide)]
      exact ⟨1, m, rfl, by decide⟩
    · rw [if_neg hread, if_neg (not_not.mpr rfl), hbad, swizzleLoop]
      split
      · simp only [ite_self]
        rw [if_pos (by decide)]
        exact ⟨1, _, rfl, by decide⟩
      · exact ⟨1, _, rfl, by decide⟩
  obtain ⟨rc, m', hrun, hrc⟩ := hloop
  refine ⟨2, rc, m', ?_, hrc⟩
  rw [uploadSwizzle_checked hne hcheck, hrun]
  rfl

/-- An empty file, or one whose size is zero in 32 bits. -/
theorem uploadSwizzle_empty (hne : consume swizzle ≠ 0) (hcheck : Checked file swizzle)
    (hsize : filesize file = 0) (ch : Channel) :
    uploadSwizzle ch 1 file base swizzle buf₀ m = some (.ends 0 m) := by
  rw [uploadSwizzle_checked hne hcheck, hsize]
  rfl

/-- A letter stands for a byte of the file, whatever is in the memory. -/
theorem imageByte_letter (hc : tolower c ∈ readTokens) (g : ℕ) (b b' : UInt8) :
    imageByte file swizzle g c b = imageByte file swizzle g c b' := by
  have h5F : c ≠ 0x5F := by
    rintro rfl
    exact absurd hc (by decide)
  rw [imageByte, imageByte, if_neg h5F, if_neg h5F]

theorem exists_letter (hne : consume swizzle ≠ 0) :
    ∃ (i : ℕ) (c : UInt8), swizzle[i]? = some c ∧ tolower c ∈ readTokens := by
  obtain ⟨c, hmem, hc⟩ := List.countP_pos_iff.mp (Nat.pos_of_ne_zero hne)
  obtain ⟨i, hi, rfl⟩ := List.mem_iff_getElem.mp hmem
  exact ⟨i, swizzle[i], List.getElem?_eq_getElem hi, of_decide_eq_true hc⟩

theorem consume_le : consume swizzle ≤ swizzle.length := List.countP_le_length

/-- What is wrong in no upload: there is a letter, whole groups in an accepted format can be uploaded, and a
    file of 4 GiB or more is refused. -/
structure Sound (waits : Waits) (file : File) (base : UInt32) (swizzle : List UInt8) : Prop where
  letter : consume swizzle ≠ 0
  whole : Accepts swizzle → consume swizzle ∣ file.data.length → file.data ≠ [] →
    Uploadable waits file base swizzle
  large : 2 ^ 32 ≤ file.data.length → Refused file swizzle

theorem Uploads.letter (h : Uploads waits file base swizzle) : consume swizzle ≠ 0 := by
  intro hzero
  obtain ⟨fuel, rc, m, hrun, -⟩ := h (List.replicate swizzle.length 0) (fun _ => 0) List.length_replicate
  rw [uploadSwizzle_divides _ hzero, Option.some_inj] at hrun
  exact Outcome.noConfusion hrun

theorem filesize_small (h : file.data.length < 2 ^ 32) : (filesize file).toNat = file.data.length :=
  UInt32.toNat_ofNat_of_lt' h

/-- A right upload in an accepted format was possible. -/
theorem Uploads.uploadable (h : Uploads waits file base swizzle) (hacc : Accepts swizzle)
    (hdvd : consume swizzle ∣ file.data.length) (hne : file.data ≠ []) :
    Uploadable waits file base swizzle := by
  have hpos : 0 < consume swizzle := Nat.pos_of_ne_zero h.letter
  have hsize : groups file swizzle * consume swizzle = file.data.length := Nat.div_mul_cancel hdvd
  have hcount : consume swizzle ≤ swizzle.length := consume_le
  have hgroups : 0 < groups file swizzle := Nat.pos_of_ne_zero fun h0 => by
    rw [h0, Nat.zero_mul] at hsize
    exact hne (List.eq_nil_of_length_eq_zero hsize.symm)
  obtain ⟨i, c, hc, hletter⟩ := exists_letter h.letter
  obtain ⟨hi, -⟩ := List.getElem?_eq_some_iff.mp hc
  -- the last byte of the last group has an address
  have hfits : base.toNat + groups file swizzle * swizzle.length ≤ 2 ^ 32 := by
    obtain ⟨fuel, rc, m, -, hright, -⟩ := h (List.replicate swizzle.length 0) (fun _ => 0)
      List.length_replicate
    obtain ⟨x, hx, -⟩ := (hright hacc hdvd).place (groups file swizzle - 1) (by omega)
      (swizzle.length - 1) _ (List.getElem?_eq_getElem (by omega))
    have hlt := x.toNat_lt
    obtain ⟨n, hn⟩ := Nat.exists_eq_succ_of_ne_zero hgroups.ne'
    rw [hn] at hx ⊢
    rw [Nat.succ_mul]
    simp only [Nat.succ_eq_add_one, Nat.add_sub_cancel] at hx
    omega
  have hbytes : file.data.length ≤ groups file swizzle * swizzle.length := by
    rw [← hsize]
    exact Nat.mul_le_mul_left _ hcount
  have hdvd' : consume swizzle ∣ (filesize file).toNat := by
    rcases Nat.lt_or_ge file.data.length (2 ^ 32) with hlt | hge
    · rw [filesize_small hlt]
      exact hdvd
    · rw [filesize, UInt32.toNat_ofNat', show file.data.length = 2 ^ 32 by omega, Nat.mod_self]
      exact Nat.dvd_zero _
  have hrun : ∀ buf mem, buf.length = swizzle.length → ∃ rc d,
      Right file base swizzle mem (stateAt waits file base swizzle buf mem d).2 ∧
      (rc = 0 → Complete waits file base swizzle (stateAt waits file base swizzle buf mem d).2) ∧
      (rc, d) = if (filesize file).toNat ≤ file.readable then
          ((0 : UInt8), (filesize file).toNat / consume swizzle)
        else (1, file.readable / consume swizzle) := by
    intro buf mem hbuf
    obtain ⟨fuel, rc, m, hends, hright, hcomplete⟩ := h buf mem hbuf
    obtain ⟨fuel', hends'⟩ :=
      @uploadSwizzle_accepts swizzle waits file base buf mem h.letter hacc hdvd' hbuf
    have heq := uploadSwizzle_unique hends hends'
    split at heq
    · next hread =>
      cases heq
      exact ⟨0, _, hright hacc hdvd, hcomplete, by rw [if_pos hread]⟩
    · next hread =>
      cases heq
      exact ⟨1, _, hright hacc hdvd, hcomplete, by rw [if_neg hread]⟩
  -- a group that was not read is not in the memory
  have hfar : ∀ d, (∀ mem, Right file base swizzle mem
      (stateAt waits file base swizzle (List.replicate swizzle.length 0) mem d).2) →
        groups file swizzle ≤ d := by
    intro d hright
    by_contra hless
    have hd : (d + 1) * swizzle.length ≤ groups file swizzle * swizzle.length :=
      Nat.mul_le_mul_right _ (by omega)
    rw [Nat.succ_mul] at hd
    have hsame : ∀ b : UInt8, some b = imageByte file swizzle d c 0 := by
      intro b
      obtain ⟨x, hx, hbyte⟩ := (hright fun _ => b).place d (by omega) i c hc
      rw [stateAt_before hacc List.length_replicate d (by omega) (by rw [sub_base hx]; omega)] at hbyte
      exact hbyte.trans (imageByte_letter hletter d _ _)
    exact absurd ((hsame 0).trans (hsame 1).symm) (by decide)
  have hread : (filesize file).toNat ≤ file.readable := by
    by_contra hnot
    have hle := @filesize_le file
    refine absurd (hfar (file.readable / consume swizzle) fun mem => ?_) ?_
    · obtain ⟨rc, d, hright, -, heq⟩ := hrun (List.replicate swizzle.length 0) mem List.length_replicate
      rw [if_neg hnot, Prod.mk_inj] at heq
      rwa [heq.2] at hright
    · rw [Nat.not_le, Nat.div_lt_iff_lt_mul hpos]
      omega
  have hall : groups file swizzle ≤ (filesize file).toNat / consume swizzle := by
    refine hfar _ fun mem => ?_
    obtain ⟨rc, d, hright, -, heq⟩ := hrun (List.replicate swizzle.length 0) mem List.length_replicate
    rw [if_pos hread, Prod.mk_inj] at heq
    rwa [heq.2] at hright
  rw [Nat.le_div_iff_mul_le hpos, hsize] at hall
  have hsmall : file.data.length < 2 ^ 32 := lt_of_le_of_lt hall (filesize file).toNat_lt
  rw [filesize_small hsmall] at hread
  have hdone : ∀ mem, Right file base swizzle mem (stateAt waits file base swizzle
      (List.replicate swizzle.length 0) mem (groups file swizzle)).2 ∧
        Complete waits file base swizzle (stateAt waits file base swizzle
          (List.replicate swizzle.length 0) mem (groups file swizzle)).2 := by
    intro mem
    obtain ⟨rc, d, hright, hcomplete, heq⟩ := hrun (List.replicate swizzle.length 0) mem
      List.length_replicate
    rw [filesize_small hsmall, if_pos hread, Prod.mk_inj] at heq
    obtain ⟨rfl, rfl⟩ := heq
    exact ⟨hright, hcomplete rfl⟩
  have hsent : ∀ g < groups file swizzle, waits.send g = false :=
    fun g hg => ((hdone fun _ => 0).2 g hg).1
  refine ⟨hfits, hsmall, hread, hsent, fun hrmw g hg => ?_⟩
  by_contra hlate
  rw [Bool.not_eq_false] at hlate
  obtain ⟨i', hi', hget⟩ := List.mem_iff_getElem.mp hrmw
  have hc' : swizzle[i']? = some 0x5F := by rw [List.getElem?_eq_getElem hi', hget]
  have hup : (g + 1) * swizzle.length ≤ groups file swizzle * swizzle.length := Nat.mul_le_mul_right _ hg
  -- the address of the token, with the one byte that is not zero
  obtain ⟨x, hx, -⟩ := (hdone fun _ => 0).1.place g hg i' _ hc'
  obtain ⟨x', hx', hbyte⟩ := (hdone (oneAt x)).1.place g hg i' _ hc'
  obtain rfl : x' = x := UInt32.toNat_inj.mp (hx'.trans hx.symm)
  obtain ⟨d, hd⟩ := Nat.exists_eq_add_of_le (show g + 1 ≤ groups file swizzle from hg)
  have hlost := @stateAt_lost waits file base swizzle (List.replicate swizzle.length 0)
      hacc rfl x' g i' hx hc'
    (by omega) (hsent g hg) hlate
  have hkept := @stateAt_after waits file base swizzle (List.replicate swizzle.length 0) (oneAt x') hacc
    List.length_replicate x' (g + 1) (by rw [sub_base hx, Nat.succ_mul]; omega) d (by rw [← hd]; omega)
  rw [hd, hkept, hlost, imageByte, if_pos rfl, oneAt, if_pos rfl] at hbyte
  exact absurd hbyte (by decide)

/-- And a file of 4 GiB or more was refused. -/
theorem Uploads.large (h : Uploads waits file base swizzle) (hlarge : 2 ^ 32 ≤ file.data.length) :
    Refused file swizzle := by
  by_contra hno
  rw [Refused] at hno
  push Not at hno
  obtain ⟨heven, hshort, hdvd, hread⟩ := hno
  have hpos : 0 < consume swizzle := Nat.pos_of_ne_zero h.letter
  have hcount : consume swizzle ≤ swizzle.length := consume_le
  have hlt := (filesize file).toNat_lt
  have hmore : (filesize file).toNat / consume swizzle < groups file swizzle := by
    refine (Nat.div_lt_iff_lt_mul hpos).mpr ?_
    have hdm := Nat.div_add_mod file.data.length (consume swizzle)
    have hmod := Nat.mod_lt file.data.length hpos
    have hbelow : (filesize file).toNat + 2 ^ 32 ≤ file.data.length := by
      rw [filesize, UInt32.toNat_ofNat']
      omega
    rw [groups, Nat.mul_comm]
    omega
  obtain ⟨fuel, rc, m, hrun, -, hcomplete⟩ := h (List.replicate swizzle.length 0) (fun _ => 0)
    List.length_replicate
  by_cases hsize : filesize file = 0
  · have hends := uploadSwizzle_unique hrun (uploadSwizzle_empty h.letter ⟨heven, hshort, hdvd⟩ hsize _)
    cases hends
    obtain ⟨-, bs, -, hsent⟩ := hcomplete rfl 0 (Nat.zero_lt_of_lt hmore)
    cases hsent
  · obtain ⟨hacc, hle⟩ := hread hsize
    obtain ⟨fuel', hrun'⟩ := @uploadSwizzle_accepts swizzle waits file base
        (List.replicate swizzle.length 0)
      (fun _ => 0) h.letter hacc hdvd List.length_replicate
    rw [if_pos hle] at hrun'
    have hends := uploadSwizzle_unique hrun hrun'
    cases hends
    obtain ⟨-, bs, -, hsent⟩ := hcomplete rfl _ hmore
    rw [(stateAt_sent hacc List.length_replicate _).1, List.getElem?_eq_none] at hsent
    · cases hsent
    · rw [List.length_map, List.length_range]

/-- What a possible upload leaves is right. -/
theorem Uploadable.right (h : Uploadable waits file base swizzle) (hne : consume swizzle ≠ 0)
    (hacc : Accepts swizzle) (hdvd : consume swizzle ∣ file.data.length)
    (hbuf : buf₀.length = swizzle.length) :
    Right file base swizzle mem (stateAt waits file base swizzle buf₀ mem (groups file swizzle)).2 := by
  have hsize : groups file swizzle * consume swizzle = file.data.length := Nat.div_mul_cancel hdvd
  have hfits := h.fits
  refine ⟨fun g hg i c hc => ?_, fun x hx => ?_⟩
  · obtain ⟨hi, -⟩ := List.getElem?_eq_some_iff.mp hc
    have hup : (g + 1) * swizzle.length ≤ groups file swizzle * swizzle.length :=
      Nat.mul_le_mul_right _ hg
    have hfile : (g + 1) * consume swizzle ≤ groups file swizzle * consume swizzle :=
      Nat.mul_le_mul_right _ hg
    have hstep : (g + 1) * swizzle.length = g * swizzle.length + swizzle.length := Nat.succ_mul ..
    have hx : (UInt32.ofNat (base.toNat + (g * swizzle.length + i))).toNat =
        base.toNat + (g * swizzle.length + i) :=
      UInt32.toNat_ofNat_of_lt' (show _ < 2 ^ 32 by omega)
    refine ⟨_, hx, ?_⟩
    obtain ⟨d, hd⟩ := Nat.exists_eq_add_of_le (show g + 1 ≤ groups file swizzle from hg)
    have hkept := @stateAt_after waits file base swizzle buf₀ mem hacc hbuf _ (g + 1)
      (by rw [sub_base hx]; omega) d (by rw [← hd]; omega)
    rw [hd, hkept]
    exact stateAt_image hacc hbuf hx hc (by omega) (by omega) (h.sent g hg) fun hrmw => h.read hrmw g hg
  · refine stateAt_before hacc hbuf _ (by omega) ?_
    by_contra hin
    rw [Nat.not_le] at hin
    have hlen : 0 < swizzle.length := lt_of_lt_of_le (Nat.pos_of_ne_zero hne) consume_le
    have hxlt := x.toNat_lt
    have hb := base.toNat_lt
    refine hx ((x - base).toNat / swizzle.length) ((Nat.div_lt_iff_lt_mul hlen).mpr hin)
      ((x - base).toNat % swizzle.length) (Nat.mod_lt _ hlen) ?_
    rw [Nat.mul_comm, Nat.div_add_mod]
    rw [UInt32.toNat_sub] at hin ⊢
    omega

theorem complete_stateAt (hacc : Accepts swizzle) (hbuf : buf₀.length = swizzle.length)
    (hsent : ∀ g < groups file swizzle, waits.send g = false) : Complete waits file base swizzle
      (stateAt waits file base swizzle buf₀ mem (groups file swizzle)).2 := by
  intro g hg
  refine ⟨hsent g hg, _, @sentAt_length waits file base swizzle buf₀ mem hbuf g, ?_⟩
  rw [(stateAt_sent hacc hbuf _).1, List.getElem?_map, List.getElem?_range hg]
  rfl

/-- The upload of a swizzled file does what it should exactly when the format has a letter, whole groups in
    an accepted format can be uploaded, and a file of 4 GiB or more is refused. -/
theorem swizzles_iff (waits : Waits) (file : File) (base : UInt32) (swizzle : List UInt8) :
    Uploads waits file base swizzle ↔ Sound waits file base swizzle := by
  refine ⟨fun h => ⟨h.letter, h.uploadable, h.large⟩, fun h buf mem hbuf => ?_⟩
  by_cases hcheck : Checked file swizzle
  · by_cases hsize : filesize file = 0
    · -- nothing is to be done
      have hempty : file.data.length = 0 := by
        rcases Nat.lt_or_ge file.data.length (2 ^ 32) with hlt | hge
        · rw [← filesize_small hlt, hsize]
          rfl
        · rcases h.large hge with hodd | hlong | hrest | ⟨hne, -⟩
          · exact absurd hcheck.1 hodd
          · exact absurd hcheck.2.1 (by omega)
          · exact absurd hcheck.2.2 hrest
          · exact absurd hsize hne
      have hnone : groups file swizzle = 0 := by rw [groups, hempty, Nat.zero_div]
      refine ⟨1, 0, _, uploadSwizzle_empty h.letter hcheck hsize _, fun _ _ => ⟨?_, fun _ _ => rfl⟩, ?_⟩
      · intro g hg
        omega
      · intro _ g hg
        omega
    · by_cases hacc : Accepts swizzle
      · obtain ⟨fuel, hrun⟩ :=
          @uploadSwizzle_accepts swizzle waits file base buf mem h.letter hacc hcheck.2.2 hbuf
        rcases Nat.lt_or_ge file.data.length (2 ^ 32) with hlt | hge
        · have hdvd : consume swizzle ∣ file.data.length := filesize_small hlt ▸ hcheck.2.2
          have hable := h.whole hacc hdvd fun h0 => hsize (by rw [filesize, h0]; rfl)
          rw [filesize_small hlt, if_pos hable.readable] at hrun
          exact ⟨fuel, 0, _, hrun, fun _ _ => hable.right h.letter hacc hdvd hbuf,
            fun _ => complete_stateAt hacc hbuf hable.sent⟩
        · have hcut : file.readable < (filesize file).toNat := by
            rcases h.large hge with hodd | hlong | hrest | ⟨-, hbad | hcut⟩
            · exact absurd hcheck.1 hodd
            · exact absurd hcheck.2.1 (by omega)
            · exact absurd hcheck.2.2 hrest
            · exact absurd hacc hbad
            · exact hcut
          rw [if_neg (by omega)] at hrun
          refine ⟨fuel, 1, _, hrun, fun _ hdvd => ?_, fun h0 => absurd h0 (by decide)⟩
          have hable := h.whole hacc hdvd fun h0 => hsize (by rw [filesize, h0]; rfl)
          exact absurd hable.small (by omega)
      · obtain ⟨fuel, rc, m, hrun, hrc⟩ := @uploadSwizzle_token swizzle waits file base buf
            ⟨mem, [], 0⟩ h.letter
          hcheck hacc hsize hbuf
        exact ⟨fuel, rc, m, hrun, fun hacc' => absurd hacc' hacc, fun h0 => absurd h0 hrc⟩
  · refine ⟨0, 1, _, uploadSwizzle_unchecked h.letter hcheck 0, fun hacc hdvd => ?_,
      fun h0 => absurd h0 (by decide)⟩
    by_cases hne : file.data = []
    · refine absurd ⟨hacc.even, hacc.short, ?_⟩ hcheck
      rw [filesize, hne]
      exact Nat.dvd_zero _
    · have hsmall := (h.whole hacc hdvd hne).small
      exact absurd ⟨hacc.even, hacc.short, by rwa [filesize_small hsmall]⟩ hcheck

end Upload

/-- A format of constants alone, which is within everything that is asked of a format: the size of the file
    is divided by zero. -/
theorem constants_divide : ¬∀ (waits : Waits) (file : File) (base : UInt32) (swizzle : List UInt8),
    Uploads waits file base swizzle := by
  intro h
  obtain ⟨fuel, rc, m, hrun, -⟩ := h ⟨fun _ => false, fun _ => false, fun _ => false⟩ emptyFile 0
    [0x30, 0x31] [0, 0] (fun _ => 0) rfl
  rw [uploadSwizzle_divides _ (by decide), Option.some_inj] at hrun
  exact Outcome.noConfusion hrun

end Config.Swizzled
