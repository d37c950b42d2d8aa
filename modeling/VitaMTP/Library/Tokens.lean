import Mathlib.Data.List.Basic
import Mathlib.Data.List.TakeWhile

/-! Texts that end at a terminator, and a tokenizer that cuts them where they stand. -/
namespace Tokens

variable {α : Type*} {nul : α} {delim : α → Bool} {buf text s token : List α} {p saved q : ℕ}

/-- A property of the characters of a text is decided along the text. -/
instance (priority := high) decidableText {p : Char → Prop} [DecidablePred p] (text : List Char) :
    Decidable (∀ ch ∈ text, p ch) :=
  List.decidableBAll p text

theorem takeWhile_dropWhile (p : α → Bool) (l : List α) : (l.dropWhile p).takeWhile p = [] := by
  have hhead := List.head?_dropWhile_not p l
  cases hl : l.dropWhile p with
  | nil => rfl
  | cons a rest =>
    rw [hl] at hhead
    rw [List.takeWhile_cons, if_neg]
    simpa using hhead

/-- The parts between the delimiters, but for empty ones. -/
def tokens (delim : α → Bool) (text : List α) : List (List α) :=
  (text.splitOnP delim).filter fun part => !part.isEmpty

@[simp] theorem tokens_nil : tokens delim [] = [] := by
  rw [tokens, List.splitOnP_nil]
  rfl

theorem tokens_cons {a : α} (ha : delim a = true) :
    tokens delim (a :: text) = tokens delim text := by
  have hnil : ∀ b ∈ ([] : List α), delim b = false := by simp
  have hsplit : (a :: text).splitOnP delim = [] :: text.splitOnP delim :=
    List.splitOnP_append_cons_of_forall_mem hnil a ha text
  unfold tokens
  rw [hsplit]
  rfl

theorem tokens_append {seps : List α} (h : ∀ a ∈ seps, delim a = true) :
    tokens delim (seps ++ text) = tokens delim text := by
  induction seps with
  | nil => rfl
  | cons a seps ih =>
    rw [List.cons_append, tokens_cons (h a (by simp)), ih fun b hb => h b (by simp [hb])]

theorem tokens_token (hne : token ≠ []) (h : ∀ a ∈ token, delim a = false) :
    tokens delim token = [token] := by
  obtain ⟨a, token, rfl⟩ := List.exists_cons_of_ne_nil hne
  rw [tokens, List.splitOnP_eq_singleton h]
  rfl

theorem tokens_token_cons (hne : token ≠ []) (h : ∀ a ∈ token, delim a = false) {a : α}
    (ha : delim a = true) : tokens delim (token ++ a :: text) = token :: tokens delim text := by
  obtain ⟨b, token, rfl⟩ := List.exists_cons_of_ne_nil hne
  unfold tokens
  rw [List.splitOnP_append_cons_of_forall_mem h a ha]
  rfl

theorem tokens_part (h : ∀ a ∈ token, delim a = false) {seps : List α}
    (hseps : ∀ a ∈ seps, delim a = true) (hrest : seps = [] → text = []) :
    tokens delim (token ++ (seps ++ text)) =
      if token = [] then tokens delim text else token :: tokens delim text := by
  split_ifs with hempty
  · rw [hempty, List.nil_append, tokens_append hseps]
  · cases seps with
    | nil => rw [hrest rfl, List.nil_append, List.append_nil, tokens_token hempty h, tokens_nil]
    | cons a seps =>
      rw [List.cons_append, tokens_token_cons hempty h (hseps a (by simp)),
        tokens_append fun b hb => hseps b (by simp [hb])]

/-- From the offset on the buffer has the text and then a terminator. -/
def StringAt (nul : α) (buf : List α) (p : ℕ) (s : List α) : Prop :=
  nul ∉ s ∧ ∃ b, buf.drop p = s ++ nul :: b

namespace StringAt

theorem initial (h : nul ∉ s) (b : List α) : StringAt nul (s ++ nul :: b) 0 s := ⟨h, b, rfl⟩

theorem suffix (h : StringAt nul buf p s) {k : ℕ} (hk : k ≤ s.length) :
    StringAt nul buf (p + k) (s.drop k) := by
  obtain ⟨hnul, b, hb⟩ := h
  refine ⟨fun hmem => hnul (List.mem_of_mem_drop hmem), b, ?_⟩
  rw [← List.drop_drop, hb, List.drop_append_of_le_length hk]

theorem lt_length (h : StringAt nul buf p s) : p + s.length < buf.length := by
  obtain ⟨-, b, hb⟩ := h
  have hlength := congrArg List.length hb
  simp only [List.length_drop, List.length_append, List.length_cons] at hlength
  omega

theorem set_behind (h : StringAt nul buf p s) (hq : p + s.length < q) (a : α) :
    StringAt nul (buf.set q a) p s := by
  obtain ⟨hnul, b, hb⟩ := h
  obtain ⟨k, rfl⟩ : ∃ k, q = p + (s.length + (k + 1)) := ⟨q - p - s.length - 1, by omega⟩
  refine ⟨hnul, b.set k a, ?_⟩
  rw [← List.set_drop, hb, List.set_append_right _ _ (by omega), Nat.add_sub_cancel_left,
    List.set_cons_succ]

theorem cut (h : StringAt nul buf p (s ++ text)) (hne : text ≠ []) :
    StringAt nul (buf.set (p + s.length) nul) p s := by
  obtain ⟨hnul, b, hb⟩ := h
  obtain ⟨a, text, rfl⟩ := List.exists_cons_of_ne_nil hne
  refine ⟨fun hmem => hnul (List.mem_append_left _ hmem), text ++ nul :: b, ?_⟩
  rw [← List.set_drop, hb, List.append_assoc, List.set_append_right _ _ (Nat.le_refl _),
    Nat.sub_self]
  rfl

theorem rest {a : α} (h : StringAt nul buf p (s ++ a :: text)) :
    StringAt nul (buf.set (p + s.length) nul) (p + s.length + 1) text := by
  have hrest := h.suffix (k := s.length + 1) (by simp)
  rw [show (s ++ a :: text).drop (s.length + 1) = text by simp, ← Nat.add_assoc] at hrest
  obtain ⟨hnul, b, hb⟩ := hrest
  exact ⟨hnul, b, by rw [List.drop_set_of_lt (Nat.lt_succ_self _), hb]⟩

end StringAt

/-- A text that ends in front of the saved position. -/
def Kept (nul : α) (buf : List α) (saved p : ℕ) (s : List α) : Prop :=
  StringAt nul buf p s ∧ p + s.length ≤ saved

theorem Kept.suffix (h : Kept nul buf saved p s) {k : ℕ} (hk : k ≤ s.length) :
    Kept nul buf saved (p + k) (s.drop k) := by
  refine ⟨h.1.suffix hk, ?_⟩
  have hle := h.2
  rw [List.length_drop]
  omega

/-- A text falls into delimiters, a token without any, and what follows it. -/
theorem exists_token (delim : α → Bool) (text : List α) :
    ∃ seps token rest, text = seps ++ (token ++ rest) ∧ text.takeWhile delim = seps ∧
      (token ++ rest).takeWhile (fun a => !delim a) = token ∧ (∀ a ∈ seps, delim a = true) ∧
      (∀ a ∈ token, delim a = false) ∧ (token = [] → rest = []) ∧
      ∀ a ∈ rest.head?, delim a = true := by
  have hafter := List.takeWhile_append_dropWhile (p := delim) (l := text)
  have hrest := List.takeWhile_append_dropWhile (p := fun a => !delim a) (l := text.dropWhile delim)
  have hstart := List.head?_dropWhile_not delim text
  have hstop := List.head?_dropWhile_not (fun a => !delim a) (text.dropWhile delim)
  refine ⟨_, _, _, by rw [hrest, hafter], rfl, by rw [hrest],
    fun a ha => List.mem_takeWhile_imp ha, fun a ha => ?_, fun hnil => ?_, fun a ha => ?_⟩
  · simpa using List.mem_takeWhile_imp ha
  · cases htail : text.dropWhile delim with
    | nil => rfl
    | cons a tail =>
      rw [htail] at hstart hnil
      simp only [List.head?_cons] at hstart
      simp [hstart] at hnil
  · rw [Option.mem_def] at ha
    rw [ha] at hstop
    simpa using hstop

section strtok

variable [BEq α] [LawfulBEq α]

def stringAt (nul : α) (buf : List α) (p : ℕ) : List α := (buf.drop p).takeWhile (· != nul)

theorem StringAt.eq (h : StringAt nul buf p s) : stringAt nul buf p = s := by
  obtain ⟨hnul, b, hb⟩ := h
  have hall : ∀ a ∈ s, (a != nul) = true := by
    intro a ha
    rw [bne_iff_ne]
    exact fun he => hnul (he ▸ ha)
  rw [stringAt, hb, List.takeWhile_append_of_pos hall]
  simp

/-- `strtok` from a saved position: where the token is, the buffer with a terminator behind it,
and the position to go on from. -/
def strtok (nul : α) (delim : α → Bool) (buf : List α) (saved : ℕ) : Option ℕ × List α × ℕ :=
  let start := saved + ((stringAt nul buf saved).takeWhile delim).length
  let text := stringAt nul buf start
  let stop := start + (text.takeWhile fun a => !delim a).length
  if text = [] then (none, buf, start)
  else if stop = start + text.length then (some start, buf, stop)
  else (some start, buf.set stop nul, stop + 1)

/-- A call finds the first token or none. What it found, now and earlier, stays as it is. -/
theorem strtok_cases (delim : α → Bool) (h : StringAt nul buf saved text) :
    (tokens delim text = [] ∧ ∃ saved', strtok nul delim buf saved = (none, buf, saved')) ∨
      ∃ start token rest buf' saved', strtok nul delim buf saved = (some start, buf', saved') ∧
        tokens delim text = token :: tokens delim rest ∧ rest.length < text.length ∧
        StringAt nul buf' saved' rest ∧ Kept nul buf' saved' start token ∧
        ∀ p s, Kept nul buf saved p s → Kept nul buf' saved' p s := by
  obtain ⟨seps, token, rest, htext, hseps, htoken, hdelim, hclean, hnil, hstop⟩ :=
    exists_token delim text
  have hstart : StringAt nul buf (saved + seps.length) (token ++ rest) := by
    have hsuffix := h.suffix (k := seps.length) (by rw [htext]; simp)
    rwa [htext, List.drop_left] at hsuffix
  unfold strtok
  simp only [h.eq, hseps, hstart.eq, htoken]
  rw [htext, tokens_append hdelim]
  by_cases hempty : token = []
  · rw [hempty, hnil hempty, List.append_nil]
    exact Or.inl ⟨tokens_nil, _, if_pos rfl⟩
  · have hne : token ++ rest ≠ [] := by simp [hempty]
    have hpos := List.length_pos_iff.mpr hempty
    rw [if_neg hne]
    apply Or.inr
    cases rest with
    | nil =>
      rw [List.append_nil] at hstart ⊢
      have hend := hstart.suffix (k := token.length) (Nat.le_refl _)
      rw [List.drop_length] at hend
      refine ⟨saved + seps.length, token, [], buf, _, if_pos rfl, ?_, ?_, hend,
        ⟨hstart, Nat.le_refl _⟩, fun p s hp => ⟨hp.1, ?_⟩⟩
      · rw [tokens_token hempty hclean, tokens_nil]
      · rw [List.length_nil, List.length_append]
        omega
      · have hle := hp.2
        omega
    | cons a rest =>
      have ha : delim a = true := hstop a rfl
      have hlong : saved + seps.length + token.length ≠
          saved + seps.length + (token ++ a :: rest).length := by
        rw [List.length_append, List.length_cons]
        omega
      refine ⟨saved + seps.length, token, rest, _, _, if_neg hlong,
        tokens_token_cons hempty hclean ha, ?_, hstart.rest, ⟨hstart.cut (List.cons_ne_nil _ _), by omega⟩, fun p s hp => ?_⟩
      · rw [List.length_append, List.length_append, List.length_cons]
        omega
      · have hle := hp.2
        exact ⟨hp.1.set_behind (by omega) nul, by omega⟩

end strtok

end Tokens
