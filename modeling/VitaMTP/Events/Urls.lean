import VitaMTP.Events.Http
import VitaMTP.Library.Components
import VitaMTP.Library.Tokens

/-! The file that `requestURL` opens: the last segment of the path, whatever the query is. -/
namespace VitaMTP
open Components

/-- What is in front of the first `?`. -/
def urlPart (url : CString) : CString := url.takeWhile (· != '?')

/-- What is left of it, from the `?` on. -/
def urlQuery (url : CString) : CString := url.dropWhile (· != '?')

/-- The text behind the last slash, up to a `?`. -/
def lastName (s : CString) : CString := (lastPart '/' s).takeWhile (· != '?')

/-- `"%.*s"`, with a length that is narrowed to an `int`. A negative one is as if it was left
out. -/
def formatPrecision (len : ℕ) (s : CString) : CString :=
  let precision := (BitVec.ofNat 32 len).toInt
  if precision < 0 then s else s.take precision.toNat

/-- The file that is opened. `asprintf` fails where the name does not fit an `int`. -/
def requestFile (paths : CmaPaths) (url : CString) : Option CString :=
  if '/' ∈ url then
    let url := lastPart '/' url -- get request name
    let name := joinPath paths.urlPath (formatPrecision (url.takeWhile (· != '?')).length url)
    if name.length < 2 ^ 31 then some name else none
  else none

theorem formatPrecision_eq {len : ℕ} {s : CString} (h : len % 2 ^ 32 < 2 ^ 31) :
    formatPrecision len s = s.take (len % 2 ^ 32) := by
  have hint : (BitVec.ofNat 32 len).toInt = (len % 2 ^ 32 : ℕ) := by
    rw [BitVec.toInt_eq_toNat_of_lt (by rw [BitVec.toNat_ofNat]; omega), BitVec.toNat_ofNat]
  unfold formatPrecision
  rw [hint, if_neg (by omega), Int.toNat_natCast]

theorem formatPrecision_negative {len : ℕ} {s : CString} (h : 2 ^ 31 ≤ len % 2 ^ 32) :
    formatPrecision len s = s := by
  have hint : (BitVec.ofNat 32 len).toInt < 0 := by
    rw [BitVec.toInt_eq_toNat_cond, BitVec.toNat_ofNat]
    split_ifs <;> omega
  unfold formatPrecision
  rw [if_pos hint]

theorem requestFile_eq_some (paths : CmaPaths) {url : CString} (hslash : '/' ∈ url)
    (name : CString) :
    requestFile paths url = some (joinPath paths.urlPath name) ↔
      paths.urlPath.length + 1 + name.length < 2 ^ 31 ∧
        (lastName url).take ((lastName url).length % 2 ^ 32) = name := by
  have hprefix : lastName url <+: lastPart '/' url := List.takeWhile_prefix _
  have hname := List.prefix_iff_eq_take.mp hprefix
  have hlength : (joinPath paths.urlPath name).length = paths.urlPath.length + 1 + name.length := by
    simp only [joinPath, List.length_append, List.length_cons]
    omega
  have hjoin (t : CString) :
      joinPath paths.urlPath t = joinPath paths.urlPath name ↔ t = name := by
    simp [joinPath]
  unfold requestFile
  rw [if_pos hslash]
  change (if (joinPath paths.urlPath (formatPrecision (lastName url).length
    (lastPart '/' url))).length < 2 ^ 31 then some (joinPath paths.urlPath
      (formatPrecision (lastName url).length (lastPart '/' url))) else none) = _ ↔ _
  by_cases hint : (lastName url).length % 2 ^ 32 < 2 ^ 31
  · have hmod := Nat.mod_le (lastName url).length (2 ^ 32)
    have htake : (lastName url).take ((lastName url).length % 2 ^ 32) =
        (lastPart '/' url).take ((lastName url).length % 2 ^ 32) := by
      apply (congrArg (List.take _) hname).trans
      rw [List.take_take, Nat.min_eq_left hmod]
    rw [formatPrecision_eq hint, ← htake]
    constructor
    · intro h
      split_ifs at h with hfits
      rw [Option.some.injEq, hjoin] at h
      rw [h, hlength] at hfits
      exact ⟨hfits, h⟩
    · rintro ⟨hfits, rfl⟩
      rw [hlength, if_pos hfits]
  · have hlong := Nat.mod_le (lastName url).length (2 ^ 32)
    have hle := hprefix.length_le
    rw [formatPrecision_negative (by omega), if_neg]
    · simp only [reduceCtorEq, false_iff]
      rintro ⟨hfits, rfl⟩
      rw [List.length_take] at hfits
      omega
    · simp only [joinPath, List.length_append, List.length_cons]
      omega

/-- As long as all fits an `int`, the file is the one that the URL is mapped to. -/
theorem requestFile_eq_requestPath (paths : CmaPaths) {url : CString}
    (h : paths.urlPath.length + 1 + url.length < 2 ^ 31) :
    requestFile paths url = requestPath paths url := by
  by_cases hslash : '/' ∈ url
  · have hle : (lastName url).length ≤ url.length := by
      apply ((List.takeWhile_prefix _).length_le).trans
      rw [lastPart, List.length_reverse]
      apply ((List.takeWhile_prefix _).length_le).trans
      rw [List.length_reverse]
    rw [requestPath, if_pos hslash]
    refine (requestFile_eq_some paths hslash (lastName url)).mpr ⟨by omega, ?_⟩
    rw [Nat.mod_eq_of_lt (by omega), List.take_length]
  · rw [requestFile, requestPath, if_neg hslash, if_neg hslash]

theorem urlPart_append_urlQuery (url : CString) : urlPart url ++ urlQuery url = url :=
  List.takeWhile_append_dropWhile

theorem not_mem_urlPart (url : CString) : '?' ∉ urlPart url := by
  intro hmem
  simpa using List.mem_takeWhile_imp hmem

theorem lastPart_urlPart_clean (url : CString) :
    '/' ∉ lastPart '/' (urlPart url) ∧ '?' ∉ lastPart '/' (urlPart url) :=
  ⟨not_mem_lastPart '/' _, fun hmem => not_mem_urlPart url (lastPart_subset _ _ hmem)⟩

theorem lastName_url (url : CString) :
    lastName url =
      if '/' ∈ urlQuery url then lastName (urlQuery url) else lastPart '/' (urlPart url) := by
  have hurl := urlPart_append_urlQuery url
  unfold lastName
  conv_lhs => rw [← hurl]
  by_cases hslash : '/' ∈ urlQuery url
  · rw [if_pos hslash, lastPart_append_of_mem hslash]
  · have hall : ∀ ch ∈ lastPart '/' (urlPart url), (ch != '?') = true := by
      intro ch hch
      rw [bne_iff_ne]
      exact fun he => (lastPart_urlPart_clean url).2 (he ▸ hch)
    have hquery : (urlQuery url).takeWhile (· != '?') = [] := Tokens.takeWhile_dropWhile _ url
    rw [if_neg hslash, lastPart_append_of_not_mem hslash, List.takeWhile_append_of_pos hall,
      hquery, List.append_nil]

/-- The query does not lead away from the last segment of the path, and the name of the file fits
an `int`. -/
def MapsToSegment (paths : CmaPaths) (url : CString) : Prop :=
  paths.urlPath.length + 1 + (lastPart '/' (urlPart url)).length < 2 ^ 31 ∧
    ('/' ∈ urlQuery url →
      (lastName (urlQuery url)).take ((lastName (urlQuery url)).length % 2 ^ 32) =
        lastPart '/' (urlPart url))

/-- A URL opens the file of the last segment of its path, which has no delimiter in it, if and
only if its query does not lead away from it; then so does every other query that does not. -/
theorem requestFile_segment_iff (paths : CmaPaths) {url : CString} (hslash : '/' ∈ urlPart url) :
    (requestFile paths url = some (joinPath paths.urlPath (lastPart '/' (urlPart url))) ↔
        MapsToSegment paths url) ∧
      ('/' ∉ lastPart '/' (urlPart url) ∧ '?' ∉ lastPart '/' (urlPart url)) ∧
      (MapsToSegment paths url → ∀ url', urlPart url' = urlPart url → MapsToSegment paths url' →
        requestFile paths url' = requestFile paths url) := by
  have hiff (url : CString) (hslash : '/' ∈ urlPart url) :
      requestFile paths url = some (joinPath paths.urlPath (lastPart '/' (urlPart url))) ↔
        MapsToSegment paths url := by
    have hmem : '/' ∈ url := by
      rw [← urlPart_append_urlQuery url]
      exact List.mem_append_left _ hslash
    rw [requestFile_eq_some paths hmem, lastName_url, MapsToSegment]
    refine and_congr_right fun hfits => ?_
    by_cases hquery : '/' ∈ urlQuery url
    · rw [if_pos hquery]
      exact ⟨fun hname _ => hname, fun hname => hname hquery⟩
    · rw [if_neg hquery, Nat.mod_eq_of_lt (by omega), List.take_length]
      exact iff_of_true rfl fun hmem => absurd hmem hquery
  refine ⟨hiff url hslash, lastPart_urlPart_clean url, fun h url' hpart h' => ?_⟩
  rw [(hiff url hslash).mpr h, (hiff url' (hpart ▸ hslash)).mpr h', hpart]

/-- A query without a slash. -/
theorem requestFile_segment_plain :
    '/' ∈ urlPart "h/f?q".toList ∧
      (requestFile samplePaths "h/f?q".toList = some (joinPath samplePaths.urlPath
          (lastPart '/' (urlPart "h/f?q".toList))) ↔ MapsToSegment samplePaths "h/f?q".toList) ∧
      ('/' ∉ lastPart '/' (urlPart "h/f?q".toList) ∧ '?' ∉ lastPart '/' (urlPart "h/f?q".toList)) ∧
      (MapsToSegment samplePaths "h/f?q".toList → ∀ url', urlPart url' = urlPart "h/f?q".toList →
        MapsToSegment samplePaths url' →
        requestFile samplePaths url' = requestFile samplePaths "h/f?q".toList) :=
  ⟨by decide, requestFile_segment_iff samplePaths (by decide)⟩

/-- A slash in the query leads to another file. -/
theorem requestFile_query_slash :
    ¬ ∀ (paths : CmaPaths) (url : CString), '/' ∈ urlPart url →
      requestFile paths url = some (joinPath paths.urlPath (lastPart '/' (urlPart url))) := by
  intro h
  have hopened := h samplePaths "h/f?q/g".toList (by decide)
  revert hopened
  decide

end VitaMTP
