import Mathlib.Data.List.TakeWhile
import VitaMTP.Events.SendPart

/-! What the functions of `vitamtp.c` make of the payload of a transaction. -/
namespace VitaMTP
open LittleEndian

def PTP_RC_OK : BitVec 16 := 0x2001

/-- What comes of a transaction that gets data. Without any data the pointer to it is null. -/
structure Transaction where
  ret : BitVec 16
  payload : List Byte
  deriving DecidableEq, Repr

/-- The result of a function and what it stores. A function that reads outside of the payload has
none. -/
abbrev Decoded (α : Type) := BitVec 16 × Option α

section reads

/-- What `memcpy` copies. -/
def memcpy? (data : List Byte) (off len : ℕ) : Option (List Byte) :=
  if off + len ≤ data.length then some ((data.drop off).take len) else none

/-- The word `data[i]`. -/
def word (data : List Byte) (i : ℕ) : BitVec 32 :=
  BitVec.ofNat 32 (decode ((data.drop (4 * i)).take 4))

def word? (data : List Byte) (i : ℕ) : Option (BitVec 32) :=
  if 4 * (i + 1) ≤ data.length then some (word data i) else none

def longAt (data : List Byte) (off : ℕ) : ULong := BitVec.ofNat 64 (decode ((data.drop off).take 8))

end reads

/-- `browse_info_t` -/
structure BrowseInfo where
  ohfiParent : BitVec 32
  unk1 : BitVec 32
  unk2 : BitVec 32
  numObjects : BitVec 32
  unk4 : BitVec 32

def BrowseInfo.ofBytes (data : List Byte) : BrowseInfo :=
  ⟨word data 0, word data 1, word data 2, word data 3, word data 4⟩

def SendPartInit.ofBytes (data : List Byte) : SendPartInit :=
  ⟨word data 0, longAt data 4, longAt data 12⟩

/-- `treat_object_t` -/
structure TreatObject where
  ohfiParent : BitVec 32
  unk0 : BitVec 32
  handle : BitVec 32

def TreatObject.ofBytes (data : List Byte) : TreatObject := ⟨word data 0, word data 1, word data 2⟩

/-- `object_status_t` -/
structure ObjectStatus where
  ohfiRoot : BitVec 32
  len : BitVec 32
  title : List Byte

/-- `operate_object_t` -/
structure OperateCommand where
  cmd : BitVec 32
  ohfi : BitVec 32
  unk1 : BitVec 32
  len : BitVec 32
  title : List Byte

/-- `copy_confirmation_info_t` as far as it is read. -/
structure CopyConfirmationInfo where
  count : BitVec 32
  ohfi : List (BitVec 32)

section decoders

variable (t : Transaction)

def getBrowseInfo : Option (Decoded BrowseInfo) := do
  let info ← memcpy? t.payload 0 20
  some (t.ret, some (BrowseInfo.ofBytes info))

/-- The length of the string is an `int` that becomes a `size_t`. -/
def getUrl : Option (Decoded (List Byte)) :=
  let len : BitVec 32 := BitVec.ofNat 32 t.payload.length
  if t.ret ≠ PTP_RC_OK ∨ len = 0 then some (t.ret, none)
  else do
    let urlLen ← word? t.payload 2
    if urlLen.toInt < 0 then none
    else
      let url ← memcpy? t.payload 12 urlLen.toNat
      some (t.ret, some url)

def sendObjectStatus : Option (Decoded ObjectStatus) :=
  if t.ret ≠ PTP_RC_OK then some (t.ret, none)
  else do
    let ohfiRoot ← word? t.payload 0
    let len ← word? t.payload 1
    let title ← memcpy? t.payload 8 len.toNat
    some (t.ret, some ⟨ohfiRoot, len, title⟩)

def sendPartOfObjectInit : Option (Decoded SendPartInit) :=
  if t.ret ≠ PTP_RC_OK then some (t.ret, none)
  else do
    let init ← memcpy? t.payload 0 20
    some (t.ret, some (SendPartInit.ofBytes init))

/-- The `len + 1` bytes of the title are counted in 32 bits. -/
def operateObject : Option (Decoded OperateCommand) := do
  let cmd ← word? t.payload 0
  let ohfi ← word? t.payload 1
  let unk1 ← word? t.payload 2
  let len ← word? t.payload 3
  let title ← memcpy? t.payload 16 (len + 1).toNat
  some (t.ret, some ⟨cmd, ohfi, unk1, len, title⟩)

def getPartOfObject : Option (Decoded (SendPartInit × List Byte)) := do
  let init ← memcpy? t.payload 0 20
  let init := SendPartInit.ofBytes init
  let data ← memcpy? t.payload 20 init.size.toNat
  some (t.ret, some (init, data))

def getTreatObject : Option (Decoded TreatObject) := do
  let treat ← memcpy? t.payload 0 12
  some (t.ret, some (TreatObject.ofBytes treat))

def sendObjectMetadataItems : Option (Decoded (BitVec 32)) :=
  if t.ret ≠ PTP_RC_OK then some (t.ret, none)
  else do
    let ohfi ← word? t.payload 0
    some (t.ret, some ohfi)

/-- The loop of `vitaEventSendCopyConfirmationInfo` over `info->ohfi[i]`, up to an unknown id.
`known` is whether `ohfiToObject` finds something. -/
def readOhfis (known : BitVec 32 → Bool) (data : List Byte) : ℕ → ℕ → Option (List (BitVec 32))
  | 0, _ => some []
  | n + 1, i => do
    let ohfi ← word? data (i + 1)
    if known ohfi then
      let rest ← readOhfis known data n (i + 1)
      some (ohfi :: rest)
    else some [ohfi]

/-- `VitaMTP_SendCopyConfirmationInfoInit`, which hands the payload on, and the handler that reads
it. If all ids are known it is copied into the reply, with its size in an `int`. -/
def sendCopyConfirmationInfoInit (known : BitVec 32 → Bool) :
    Option (Decoded CopyConfirmationInfo) :=
  if t.ret ≠ PTP_RC_OK then some (t.ret, none)
  else do
    let count ← word? t.payload 0
    let ohfi ← readOhfis known t.payload count.toNat 0
    if ohfi.all known then
      let infoSize : BitVec 32 := count * 4 + 4
      if infoSize.toInt < 0 then none
      else
        let _ ← memcpy? t.payload 0 infoSize.toNat
        some (t.ret, some ⟨count, ohfi⟩)
    else some (t.ret, some ⟨count, ohfi⟩)

end decoders

/-- A function that succeeds exactly on a successful transaction with a payload of the format,
with what the payload says, and otherwise returns an error. -/
def Decodes {α β : Type} (parse : List Byte → Option α) (agrees : α → β → Prop) (t : Transaction)
    (r : Option (Decoded β)) : Prop :=
  match if t.ret = PTP_RC_OK then parse t.payload else none with
  | some v => ∃ out, r = some (PTP_RC_OK, some out) ∧ agrees v out
  | none => ∃ code out, r = some (code, out) ∧ code ≠ PTP_RC_OK

/-- A part of `n` bytes. -/
def fixedFormat {α : Type} (n : ℕ) (fields : List Byte → α) (data : List Byte) : Option α :=
  if n ≤ data.length then some (fields (data.take n)) else none

/-- A part of `n` bytes and behind it as many bytes as it says. -/
def countedFormat {α : Type} (n : ℕ) (len : List Byte → ℕ) (fields : List Byte → α)
    (data : List Byte) : Option (α × List Byte) :=
  if n ≤ data.length ∧ n + len data ≤ data.length then
    some (fields (data.take n), (data.drop n).take (len data))
  else none

/-- A string that ends within its allocation and says what it should. -/
def Terminated (text alloc : List Byte) : Prop :=
  0 ∈ alloc ∧ alloc.takeWhile (· ≠ 0) = text.takeWhile (· ≠ 0)

def words (data : List Byte) (n : ℕ) : List (BitVec 32) := (List.range n).map (word data)

inductive Decoder
  | getBrowseInfo
  | getUrl
  | sendObjectStatus
  | sendPartOfObjectInit
  | operateObject
  | getPartOfObject
  | getTreatObject
  | sendObjectMetadataItems
  | sendCopyConfirmationInfoInit
  deriving DecidableEq, Repr

/-- The function accepts exactly the payloads of its format. Of the ids of a copy confirmation the
handler reads no more than it needs. -/
def Decoder.Correct (known : BitVec 32 → Bool) (t : Transaction) : Decoder → Prop
  | getBrowseInfo => Decodes (fixedFormat 20 BrowseInfo.ofBytes) Eq t (VitaMTP.getBrowseInfo t)
  | getUrl => Decodes (countedFormat 12 (fun data => (word data 2).toNat) fun _ => ())
      (fun v url => Terminated v.2 url) t (VitaMTP.getUrl t)
  | sendObjectStatus => Decodes
      (countedFormat 8 (fun data => (word data 1).toNat) fun data => (word data 0, word data 1))
      (fun v status => (status.ohfiRoot, status.len) = v.1 ∧ Terminated v.2 status.title) t
      (VitaMTP.sendObjectStatus t)
  | sendPartOfObjectInit =>
      Decodes (fixedFormat 20 SendPartInit.ofBytes) Eq t (VitaMTP.sendPartOfObjectInit t)
  | operateObject => Decodes
      (countedFormat 16 (fun data => (word data 3).toNat)
        fun data => (word data 0, word data 1, word data 2, word data 3))
      (fun v op => (op.cmd, op.ohfi, op.unk1, op.len) = v.1 ∧ Terminated v.2 op.title) t
      (VitaMTP.operateObject t)
  | getPartOfObject => Decodes
      (countedFormat 20 (fun data => (longAt data 12).toNat) SendPartInit.ofBytes) Eq t
      (VitaMTP.getPartOfObject t)
  | getTreatObject => Decodes (fixedFormat 12 TreatObject.ofBytes) Eq t (VitaMTP.getTreatObject t)
  | sendObjectMetadataItems =>
      Decodes (fixedFormat 4 fun data => word data 0) Eq t (VitaMTP.sendObjectMetadataItems t)
  | sendCopyConfirmationInfoInit => Decodes
      (countedFormat 4 (fun data => 4 * (word data 0).toNat) fun data => word data 0)
      (fun v info => info.count = v.1 ∧ info.ohfi <+: words v.2 v.1.toNat ∧
        ((∀ ohfi ∈ info.ohfi, known ohfi = true) → info.ohfi = words v.2 v.1.toNat)) t
      (VitaMTP.sendCopyConfirmationInfoInit t known)

def textAt (data : List Byte) (off len : ℕ) : List Byte := (data.drop off).take len

/-- Where the function does that. Some of them read the payload of a failed transaction too. -/
def Decoder.Fits (known : BitVec 32 → Bool) (t : Transaction) : Decoder → Prop
  | getBrowseInfo => 20 ≤ t.payload.length
  | getUrl => t.ret = PTP_RC_OK →
      t.payload.length % 2 ^ 32 ≠ 0 ∧ (word t.payload 2).toNat < 2 ^ 31 ∧
        12 + (word t.payload 2).toNat ≤ t.payload.length ∧
        0 ∈ textAt t.payload 12 (word t.payload 2).toNat
  | sendObjectStatus => t.ret = PTP_RC_OK →
      8 + (word t.payload 1).toNat ≤ t.payload.length ∧
        0 ∈ textAt t.payload 8 (word t.payload 1).toNat
  | sendPartOfObjectInit => t.ret = PTP_RC_OK → 20 ≤ t.payload.length
  | operateObject => 16 + (word t.payload 3 + 1).toNat ≤ t.payload.length ∧
      (t.ret = PTP_RC_OK → (word t.payload 3).toNat + 1 < 2 ^ 32 ∧
        0 ∈ textAt t.payload 16 ((word t.payload 3).toNat + 1))
  | getPartOfObject => 20 + (longAt t.payload 12).toNat ≤ t.payload.length
  | getTreatObject => 12 ≤ t.payload.length
  | sendObjectMetadataItems => t.ret = PTP_RC_OK → 4 ≤ t.payload.length
  | sendCopyConfirmationInfoInit => t.ret = PTP_RC_OK →
      4 + 4 * (word t.payload 0).toNat ≤ t.payload.length ∧
        ((∀ ohfi ∈ words (t.payload.drop 4) (word t.payload 0).toNat, known ohfi = true) →
          (word t.payload 0 * 4 + 4).toNat < 2 ^ 31)

section reading

variable {data : List Byte} {n i : ℕ}

theorem word_take (h : 4 * (i + 1) ≤ n) : word (data.take n) i = word data i := by
  unfold word
  rw [List.drop_take, List.take_take, min_eq_left (by omega)]

theorem word_drop : word (data.drop 4) i = word data (i + 1) := by
  unfold word
  rw [List.drop_drop, show 4 + 4 * i = 4 * (i + 1) by omega]

theorem longAt_take (h : i + 8 ≤ n) : longAt (data.take n) i = longAt data i := by
  unfold longAt
  rw [List.drop_take, List.take_take, min_eq_left (by omega)]

theorem memcpy?_zero : memcpy? data 0 n = if n ≤ data.length then some (data.take n) else none := by
  unfold memcpy?
  rw [Nat.zero_add, List.drop_zero]

end reading

section results

variable {α β : Type} {parse : List Byte → Option α} {agrees : α → β → Prop} {t : Transaction}

theorem decodes_iff {r : Option (Decoded β)}
    (hret : ∀ code out, r = some (code, out) → code = t.ret) :
    Decodes parse agrees t r ↔
      if t.ret = PTP_RC_OK then
        ∃ v, parse t.payload = some v ∧ ∃ out, r = some (t.ret, some out) ∧ agrees v out
      else r.isSome := by
  unfold Decodes
  by_cases hok : t.ret = PTP_RC_OK
  · simp only [if_pos hok]
    cases hparse : parse t.payload with
    | none =>
      simp only [reduceCtorEq, false_and, exists_false, iff_false, not_exists, not_and, not_not]
      exact fun code out hr => (hret code out hr).trans hok
    | some v => simp [hok]
  · simp only [if_neg hok]
    constructor
    · rintro ⟨code, out, rfl, -⟩
      rfl
    · intro hsome
      obtain ⟨⟨code, out⟩, rfl⟩ := Option.isSome_iff_exists.mp hsome
      exact ⟨code, out, rfl, fun h => hok (hret code out rfl ▸ h)⟩

theorem fixed_unchecked_iff (size : ℕ) (fields : List Byte → β) :
    Decodes (fixedFormat size fields) Eq t
        ((memcpy? t.payload 0 size).bind fun bytes => some (t.ret, some (fields bytes))) ↔
      size ≤ t.payload.length := by
  rw [memcpy?_zero, decodes_iff]
  · unfold fixedFormat
    split_ifs <;> simp [*]
  · split_ifs <;> simp_all

theorem fixed_checked_iff (size : ℕ) (fields : List Byte → β) :
    Decodes (fixedFormat size fields) Eq t
        (if t.ret ≠ PTP_RC_OK then some (t.ret, none)
        else (memcpy? t.payload 0 size).bind fun bytes => some (t.ret, some (fields bytes))) ↔
      (t.ret = PTP_RC_OK → size ≤ t.payload.length) := by
  rw [memcpy?_zero, decodes_iff]
  · unfold fixedFormat
    split_ifs <;> simp_all
  · split_ifs <;> simp_all

end results

theorem countedFormat_eq_some {α : Type} {n : ℕ} {len : List Byte → ℕ} {fields : List Byte → α}
    {data : List Byte} {v : α × List Byte} :
    countedFormat n len fields data = some v ↔
      n + len data ≤ data.length ∧ v = (fields (data.take n), textAt data n (len data)) := by
  unfold countedFormat textAt
  split_ifs with h
  · rw [Option.some.injEq, eq_comm]
    exact (and_iff_right h.2).symm
  · simp only [false_iff, not_and]
    intro hlen
    exact absurd ⟨by omega, hlen⟩ h

theorem terminated_take_succ_iff {data : List Byte} {n : ℕ} :
    Terminated (data.take n) (data.take (n + 1)) ↔ 0 ∈ data.take (n + 1) := by
  unfold Terminated
  refine and_iff_left_of_imp fun hzero => ?_
  rw [List.take_add_one] at hzero ⊢
  by_cases hall : ∀ b ∈ data.take n, b ≠ 0
  · have hlast : data[n]?.toList = [0] := by
      rcases List.mem_append.mp hzero with h | h
      · exact absurd rfl (hall 0 h)
      · cases hn : data[n]? with
        | none => simp [hn] at h
        | some b => simp_all
    have hself : (data.take n).takeWhile (· ≠ 0) = data.take n :=
      List.takeWhile_eq_self_iff.mpr fun b hb => by simpa using hall b hb
    rw [List.takeWhile_append_of_pos fun b hb => by simpa using hall b hb, hlast, hself]
    simp
  · rw [List.takeWhile_append, if_neg]
    intro hlen
    have hself := (List.takeWhile_prefix (fun b : Byte => decide (b ≠ 0))).eq_of_length hlen
    exact hall fun b hb => by simpa using List.takeWhile_eq_self_iff.mp hself b hb

section decoders

variable {known : BitVec 32 → Bool} {t : Transaction}

theorem getUrl_eq (hok : t.ret = PTP_RC_OK) :
    getUrl t =
      if t.payload.length % 2 ^ 32 = 0 then some (t.ret, none)
      else if 12 ≤ t.payload.length ∧ (word t.payload 2).toNat < 2 ^ 31 ∧
          12 + (word t.payload 2).toNat ≤ t.payload.length then
        some (t.ret, some (textAt t.payload 12 (word t.payload 2).toNat))
      else none := by
  have hlen : BitVec.ofNat 32 t.payload.length = 0 ↔ t.payload.length % 2 ^ 32 = 0 := by
    rw [← BitVec.toNat_inj, BitVec.toNat_ofNat]
    rfl
  have hsign : (word t.payload 2).toInt < 0 ↔ ¬ (word t.payload 2).toNat < 2 ^ 31 := by
    rw [BitVec.toInt_neg_iff]
    omega
  unfold getUrl word? memcpy? textAt
  simp only [ne_eq, hok, not_true_eq_false, false_or, hlen]
  by_cases h12 : 12 ≤ t.payload.length
  · simp only [h12, if_true, Option.bind_eq_bind, Option.bind_some, true_and, hsign, ite_not]
    by_cases hpos : (word t.payload 2).toNat < 2 ^ 31
    · simp only [hpos, if_true, true_and]
      split_ifs <;> rfl
    · simp only [hpos, if_false, false_and]
  · simp [h12]

theorem getUrl_iff : (Decoder.getUrl).Correct known t ↔ (Decoder.getUrl).Fits known t := by
  unfold Decoder.Correct Decoder.Fits
  dsimp only
  by_cases hok : t.ret = PTP_RC_OK
  · rw [getUrl_eq hok, decodes_iff (by split_ifs <;> simp_all)]
    simp only [hok, if_true, true_imp_iff, countedFormat_eq_some]
    constructor
    · rintro ⟨v, ⟨hlen, rfl⟩, url, hr, hterm⟩
      split_ifs at hr with hempty hfits
      · simp at hr
      · simp only [Option.some.injEq, Prod.mk.injEq, true_and] at hr
        exact ⟨hempty, hfits.2.1, hlen, hr ▸ hterm.1⟩
    · rintro ⟨hempty, hpos, hlen, hzero⟩
      refine ⟨_, ⟨hlen, rfl⟩, _, ?_, hzero, rfl⟩
      rw [if_neg hempty, if_pos ⟨by omega, hpos, hlen⟩]
  · rw [getUrl, if_pos (Or.inl hok), decodes_iff (by simp_all)]
    simp [hok]

theorem sendObjectStatus_eq (hok : t.ret = PTP_RC_OK) :
    sendObjectStatus t =
      if 8 ≤ t.payload.length ∧ 8 + (word t.payload 1).toNat ≤ t.payload.length then
        some (t.ret, some ⟨word t.payload 0, word t.payload 1,
          textAt t.payload 8 (word t.payload 1).toNat⟩)
      else none := by
  unfold sendObjectStatus word? memcpy? textAt
  simp only [ne_eq, hok, not_true_eq_false, if_false]
  by_cases h8 : 8 ≤ t.payload.length
  · have h4 : 4 ≤ t.payload.length := by omega
    simp only [h4, h8, if_true, Option.bind_eq_bind, Option.bind_some, true_and]
    split_ifs <;> rfl
  · simp only [h8, false_and, if_false, Option.bind_eq_bind, Option.bind_none,
      Option.bind_fun_none]

theorem sendObjectStatus_iff :
    (Decoder.sendObjectStatus).Correct known t ↔ (Decoder.sendObjectStatus).Fits known t := by
  unfold Decoder.Correct Decoder.Fits
  dsimp only
  by_cases hok : t.ret = PTP_RC_OK
  · rw [sendObjectStatus_eq hok, decodes_iff (by split_ifs <;> simp_all)]
    simp only [hok, if_true, true_imp_iff, countedFormat_eq_some]
    constructor
    · rintro ⟨v, ⟨hlen, rfl⟩, status, hr, -, hterm⟩
      split_ifs at hr
      simp only [Option.some.injEq, Prod.mk.injEq, true_and] at hr
      subst hr
      exact ⟨hlen, hterm.1⟩
    · rintro ⟨hlen, hzero⟩
      refine ⟨_, ⟨hlen, rfl⟩, ⟨word t.payload 0, word t.payload 1, _⟩, ?_, ?_, hzero, rfl⟩
      · rw [if_pos ⟨by omega, hlen⟩]
        rfl
      · rw [word_take (by omega), word_take (by omega)]
  · rw [sendObjectStatus, if_pos hok, decodes_iff (by simp_all)]
    simp [hok]

theorem operateObject_eq :
    operateObject t =
      if 16 ≤ t.payload.length ∧ 16 + (word t.payload 3 + 1).toNat ≤ t.payload.length then
        some (t.ret, some ⟨word t.payload 0, word t.payload 1, word t.payload 2, word t.payload 3,
          textAt t.payload 16 (word t.payload 3 + 1).toNat⟩)
      else none := by
  unfold operateObject word? memcpy? textAt
  by_cases h16 : 16 ≤ t.payload.length
  · have h4 : 4 ≤ t.payload.length := by omega
    have h8 : 8 ≤ t.payload.length := by omega
    have h12 : 12 ≤ t.payload.length := by omega
    simp only [h4, h8, h12, h16, if_true, Option.bind_eq_bind, Option.bind_some, true_and]
    split_ifs <;> rfl
  · simp only [h16, false_and, if_false, Option.bind_eq_bind, Option.bind_none,
      Option.bind_fun_none]

theorem operateObject_iff :
    (Decoder.operateObject).Correct known t ↔ (Decoder.operateObject).Fits known t := by
  unfold Decoder.Correct Decoder.Fits
  dsimp only
  rw [operateObject_eq, decodes_iff (by split_ifs <;> simp_all)]
  have hlt := (word t.payload 3).isLt
  have hone : (1 : BitVec 32).toNat = 1 := rfl
  have hsucc : (word t.payload 3 + 1).toNat = ((word t.payload 3).toNat + 1) % 2 ^ 32 := by
    rw [BitVec.toNat_add, hone]
  by_cases hok : t.ret = PTP_RC_OK
  · simp only [hok, if_true, true_imp_iff, countedFormat_eq_some]
    constructor
    · rintro ⟨v, ⟨hlen, rfl⟩, op, hr, -, hterm⟩
      split_ifs at hr with hfits
      simp only [Option.some.injEq, Prod.mk.injEq, true_and] at hr
      subst hr
      by_cases hwrap : (word t.payload 3).toNat + 1 < 2 ^ 32
      · rw [hsucc, Nat.mod_eq_of_lt hwrap] at hterm hfits ⊢
        exact ⟨hfits.2, hwrap, hterm.1⟩
      · -- the length wraps to nothing
        have hempty : (word t.payload 3 + 1).toNat = 0 := by
          rw [hsucc, show (word t.payload 3).toNat + 1 = 2 ^ 32 by omega, Nat.mod_self]
        have hzero : 0 ∈ textAt t.payload 16 (word t.payload 3 + 1).toNat := hterm.1
        rw [hempty, textAt, List.take_zero] at hzero
        simp at hzero
    · rintro ⟨hlen, hwrap, hzero⟩
      rw [hsucc, Nat.mod_eq_of_lt hwrap] at hlen ⊢
      refine ⟨_, ⟨by omega, rfl⟩, ⟨word t.payload 0, word t.payload 1, word t.payload 2,
        word t.payload 3, _⟩, ?_, ?_, terminated_take_succ_iff.mpr hzero⟩
      · rw [if_pos ⟨by omega, hlen⟩]
        rfl
      · rw [word_take (by omega), word_take (by omega), word_take (by omega),
          word_take (by omega)]
  · simp only [hok, if_false, false_imp_iff, and_true]
    split_ifs with hfits
    · exact iff_of_true rfl hfits.2
    · refine iff_of_false (by simp) fun hlen => hfits ⟨?_, hlen⟩
      omega

theorem getPartOfObject_eq :
    getPartOfObject t =
      if 20 + (longAt t.payload 12).toNat ≤ t.payload.length then
        some (t.ret, some (SendPartInit.ofBytes (t.payload.take 20),
          textAt t.payload 20 (longAt t.payload 12).toNat))
      else none := by
  unfold getPartOfObject
  rw [memcpy?_zero]
  by_cases h20 : 20 ≤ t.payload.length
  · have hsize : (SendPartInit.ofBytes (t.payload.take 20)).size = longAt t.payload 12 :=
      longAt_take (by omega)
    simp only [h20, if_true, Option.bind_eq_bind, Option.bind_some, hsize, memcpy?, textAt]
    split_ifs <;> rfl
  · rw [if_neg h20, if_neg (by omega)]
    rfl

theorem getPartOfObject_iff :
    (Decoder.getPartOfObject).Correct known t ↔ (Decoder.getPartOfObject).Fits known t := by
  unfold Decoder.Correct Decoder.Fits
  dsimp only
  rw [getPartOfObject_eq, decodes_iff (by split_ifs <;> simp_all)]
  simp only [countedFormat_eq_some]
  split_ifs with hok hlen hlen
  · exact iff_of_true ⟨_, ⟨hlen, rfl⟩, _, rfl, rfl⟩ hlen
  · exact iff_of_false (by simp) hlen
  · exact iff_of_true rfl hlen
  · exact iff_of_false (by simp) hlen

theorem sendObjectMetadataItems_iff : (Decoder.sendObjectMetadataItems).Correct known t ↔
    (Decoder.sendObjectMetadataItems).Fits known t := by
  have hword : sendObjectMetadataItems t = if t.ret ≠ PTP_RC_OK then some (t.ret, none)
      else (memcpy? t.payload 0 4).bind fun bytes => some (t.ret, some (word bytes 0)) := by
    unfold sendObjectMetadataItems word?
    rw [memcpy?_zero]
    by_cases h4 : 4 ≤ t.payload.length
    · simp [h4, word_take]
    · simp [h4]
  unfold Decoder.Correct Decoder.Fits
  dsimp only
  rw [hword]
  exact fixed_checked_iff 4 fun data => word data 0

/-- The ids that are read: all of them, or those up to one that is not known. -/
theorem readOhfis_eq {data : List Byte} {n i : ℕ} (h : 4 + 4 * (i + n) ≤ data.length) :
    ∃ ohfi, readOhfis known data n i = some ohfi ∧
      ohfi <+: (List.range' i n).map (word (data.drop 4)) ∧
      ((∀ o ∈ ohfi, known o = true) → ohfi = (List.range' i n).map (word (data.drop 4))) := by
  induction n generalizing i with
  | zero => exact ⟨[], rfl, by simp, by simp⟩
  | succ n ih =>
    obtain ⟨rest, hrest, hpre, hall⟩ := @ih (i + 1) (by omega)
    have hword : word? data (i + 1) = some (word data (i + 1)) := if_pos (by omega)
    rw [List.range'_succ, List.map_cons, word_drop]
    simp only [readOhfis, hword, hrest, Option.bind_eq_bind, Option.bind_some]
    by_cases hknown : known (word data (i + 1)) = true
    · refine ⟨word data (i + 1) :: rest, by rw [if_pos hknown], ?_, fun hk => ?_⟩
      · exact List.cons_prefix_cons.mpr ⟨rfl, hpre⟩
      · rw [← hall fun o ho => hk o (List.mem_cons_of_mem _ ho)]
    · refine ⟨[word data (i + 1)], by rw [if_neg hknown], by simp, fun hk => ?_⟩
      exact absurd (hk _ (List.mem_singleton_self _)) hknown

theorem words_textAt {data : List Byte} {n : ℕ} :
    words (textAt data 4 (4 * n)) n = words (data.drop 4) n := by
  unfold words textAt
  refine List.map_congr_left fun i hi => word_take ?_
  have := List.mem_range.mp hi
  omega

theorem sendCopyConfirmationInfoInit_eq (hok : t.ret = PTP_RC_OK)
    (hlen : 4 + 4 * (word t.payload 0).toNat ≤ t.payload.length) {ohfi : List (BitVec 32)}
    (hread : readOhfis known t.payload (word t.payload 0).toNat 0 = some ohfi) :
    sendCopyConfirmationInfoInit t known =
      if ohfi.all known then
        if (word t.payload 0 * 4 + 4).toInt < 0 then none
        else some (t.ret, some ⟨word t.payload 0, ohfi⟩)
      else some (t.ret, some ⟨word t.payload 0, ohfi⟩) := by
  have hword : word? t.payload 0 = some (word t.payload 0) := if_pos (by omega)
  have hsize : (word t.payload 0 * 4 + 4).toNat ≤ t.payload.length := by
    have hfour : (4 : BitVec 32).toNat = 4 := rfl
    rw [BitVec.toNat_add, BitVec.toNat_mul, hfour]
    omega
  have hcopy : memcpy? t.payload 0 (word t.payload 0 * 4 + 4).toNat =
      some (t.payload.take (word t.payload 0 * 4 + 4).toNat) := by
    rw [memcpy?_zero, if_pos hsize]
  rw [sendCopyConfirmationInfoInit, if_neg (not_not.mpr hok)]
  simp only [hword, hread, hcopy, Option.bind_eq_bind, Option.bind_some]

theorem sendCopyConfirmationInfoInit_iff : (Decoder.sendCopyConfirmationInfoInit).Correct known t ↔
    (Decoder.sendCopyConfirmationInfoInit).Fits known t := by
  unfold Decoder.Correct Decoder.Fits
  dsimp only
  by_cases hok : t.ret = PTP_RC_OK
  · have hret : ∀ code out, sendCopyConfirmationInfoInit t known = some (code, out) →
        code = t.ret := by
      intro code out h
      rw [sendCopyConfirmationInfoInit, if_neg (not_not.mpr hok)] at h
      obtain ⟨count, -, h⟩ := Option.bind_eq_some_iff.mp h
      obtain ⟨ohfi, -, h⟩ := Option.bind_eq_some_iff.mp h
      dsimp only at h
      split_ifs at h
      · obtain ⟨_, -, h⟩ := Option.bind_eq_some_iff.mp h
        exact (congrArg Prod.fst (Option.some.inj h)).symm
      · exact (congrArg Prod.fst (Option.some.inj h)).symm
    rw [decodes_iff hret]
    simp only [hok, if_true, true_imp_iff, countedFormat_eq_some]
    by_cases hlen : 4 + 4 * (word t.payload 0).toNat ≤ t.payload.length
    · obtain ⟨ohfi, hread, hpre, hall⟩ := @readOhfis_eq known t.payload
        (word t.payload 0).toNat 0 (by omega)
      rw [← List.range_eq_range', ← words] at hpre hall
      have heq := sendCopyConfirmationInfoInit_eq hok hlen hread
      have hsign : (word t.payload 0 * 4 + 4).toInt < 0 ↔
          ¬ (word t.payload 0 * 4 + 4).toNat < 2 ^ 31 := by
        rw [BitVec.toInt_neg_iff]
        omega
      have hcount : word (t.payload.take 4) 0 = word t.payload 0 := word_take (by omega)
      rw [hok] at heq
      simp only [heq, hlen, true_and, exists_eq_left, hcount, words_textAt]
      by_cases hknown : ∀ o ∈ ohfi, known o = true
      · have hwords := hall hknown
        rw [if_pos (by simpa using hknown), ← hwords]
        simp only [hsign, ite_not]
        by_cases hsize : (word t.payload 0 * 4 + 4).toNat < 2 ^ 31
        · rw [if_pos hsize]
          refine iff_of_true ⟨_, rfl, rfl, List.prefix_rfl, fun _ => rfl⟩ fun _ => hsize
        · rw [if_neg hsize]
          refine iff_of_false ?_ fun h => hsize (h hknown)
          rintro ⟨_, h, -⟩
          simp at h
      · rw [if_neg (by simpa using hknown)]
        refine iff_of_true ⟨_, rfl, rfl, hpre, fun h => absurd h hknown⟩ fun h => ?_
        exact absurd (fun o ho => h o (hpre.subset ho)) hknown
    · refine iff_of_false ?_ fun h => hlen h.1
      rintro ⟨v, ⟨h, -⟩, -⟩
      exact hlen h
  · rw [sendCopyConfirmationInfoInit, if_pos hok, decodes_iff (by simp_all)]
    simp [hok]

/-- A function accepts exactly the payloads of its format if and only if the payload fits it. -/
theorem decoder_correct_iff (decoder : Decoder) (known : BitVec 32 → Bool) (t : Transaction) :
    decoder.Correct known t ↔ decoder.Fits known t := by
  cases decoder with
  | getBrowseInfo => exact fixed_unchecked_iff 20 BrowseInfo.ofBytes
  | getUrl => exact getUrl_iff
  | sendObjectStatus => exact sendObjectStatus_iff
  | sendPartOfObjectInit => exact fixed_checked_iff 20 SendPartInit.ofBytes
  | operateObject => exact operateObject_iff
  | getPartOfObject => exact getPartOfObject_iff
  | getTreatObject => exact fixed_unchecked_iff 12 TreatObject.ofBytes
  | sendObjectMetadataItems => exact sendObjectMetadataItems_iff
  | sendCopyConfirmationInfoInit => exact sendCopyConfirmationInfoInit_iff

end decoders

/-- A transaction that fails without data: the code is right, but a null pointer is read first. -/
theorem getBrowseInfo_failed :
    getBrowseInfo ⟨0x02ff, []⟩ = none ∧
      ¬ Decoder.Correct (fun _ => true) ⟨0x02ff, []⟩ .getBrowseInfo := by
  refine ⟨rfl, fun h => ?_⟩
  have hlen : 20 ≤ (⟨0x02ff, []⟩ : Transaction).payload.length :=
    (fixed_unchecked_iff 20 BrowseInfo.ofBytes).mp h
  exact absurd hlen (by decide)

end VitaMTP
