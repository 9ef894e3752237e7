import Arveil.Spec.Selection

/-! A conversation by its full id. The text of an id is a prefix of the text of every
longer id that starts with it, so the full id selects its conversation exactly when no
other conversation's id extends it. -/

namespace Arveil.Client

theorem hexDigit_inj {a b : UInt8} (ha : a < 16) (hb : b < 16) (h : hexDigit a = hexDigit b) : a = b := by
  have hvalue := hexValue_hexDigit a ha
  rw [h, hexValue_hexDigit b hb] at hvalue
  exact (Option.some.inj hvalue).symm

theorem hexEncode_prefix {g g' : Bytes} : hexEncode g <+: hexEncode g' ↔ g <+: g' := by
  induction g generalizing g' with
  | nil => exact ⟨fun _ => List.nil_prefix, fun _ => List.nil_prefix⟩
  | cons b g ih =>
    cases g' with
    | nil => simp [hexEncode]
    | cons b' g' =>
      obtain ⟨hhi, hlo, hsum⟩ := nibbles b
      obtain ⟨hhi', hlo', hsum'⟩ := nibbles b'
      simp only [hexEncode, List.cons_prefix_cons, ih]
      constructor
      · rintro ⟨hd, hd', hrest⟩
        refine ⟨?_, hrest⟩
        rw [← hsum, ← hsum', hexDigit_inj hhi hhi' hd, hexDigit_inj hlo hlo' hd']
      · rintro ⟨rfl, hrest⟩
        exact ⟨rfl, rfl, hrest⟩

/-- What stands in the text of an id. -/
def HexByte (x : UInt8) : Prop := (48 ≤ x ∧ x ≤ 57) ∨ (97 ≤ x ∧ x ≤ 102)

theorem hexByte_hexDigit {n : UInt8} (h : n < 16) : HexByte (hexDigit n) := by
  have hall : ∀ k : Fin 16, (48 ≤ hexDigit (UInt8.ofNat k) ∧ hexDigit (UInt8.ofNat k) ≤ 57) ∨
      (97 ≤ hexDigit (UInt8.ofNat k) ∧ hexDigit (UInt8.ofNat k) ≤ 102) := by decide
  have hn : n.toNat < 16 := by simpa [UInt8.lt_iff_toNat_lt] using h
  simpa [HexByte] using hall ⟨n.toNat, hn⟩

theorem hexByte_of_mem {g : Bytes} {x : UInt8} (h : x ∈ hexEncode g) : HexByte x := by
  induction g with
  | nil => cases h
  | cons b g ih =>
    obtain ⟨hhi, hlo, -⟩ := nibbles b
    rcases List.mem_cons.1 h with rfl | h
    · exact hexByte_hexDigit hhi
    · rcases List.mem_cons.1 h with rfl | h
      · exact hexByte_hexDigit hlo
      · exact ih h

theorem hexByte_char {x : UInt8} (h : HexByte x) :
    isWhitespace (Char.ofNat x.toNat) = false ∧ (Char.ofNat x.toNat).toLower = Char.ofNat x.toNat := by
  have hall : ∀ k : Fin 103, (48 ≤ k.val ∧ k.val ≤ 57) ∨ 97 ≤ k.val →
      isWhitespace (Char.ofNat k.val) = false ∧ (Char.ofNat k.val).toLower = Char.ofNat k.val := by decide
  have hx : x.toNat < 103 ∧ ((48 ≤ x.toNat ∧ x.toNat ≤ 57) ∨ 97 ≤ x.toNat) := by
    simp only [HexByte, UInt8.le_iff_toNat_le, UInt8.reduceToNat] at h
    omega
  exact hall ⟨x.toNat, hx.1⟩ hx.2

theorem hexOf_toList (g : Bytes) : (hexOf g).toList = (hexEncode g).map fun c => Char.ofNat c.toNat :=
  String.toList_ofList

theorem mem_hexOf {g : Bytes} {c : Char} (h : c ∈ (hexOf g).toList) : isWhitespace c = false ∧ c.toLower = c := by
  rw [hexOf_toList] at h
  obtain ⟨x, hx, rfl⟩ := List.mem_map.1 h
  exact hexByte_char (hexByte_of_mem hx)

theorem dropWhile_eq_self {α : Type} {p : α → Bool} {l : List α} (h : ∀ a ∈ l, p a = false) : l.dropWhile p = l := by
  cases l with
  | nil => rfl
  | cons a l => rw [List.dropWhile_cons_of_neg (by simp [h a List.mem_cons_self])]

theorem trim_hexOf (g : Bytes) : trim (hexOf g) = hexOf g := by
  unfold trim
  rw [dropWhile_eq_self fun c hc => (mem_hexOf hc).1,
    dropWhile_eq_self fun c hc => (mem_hexOf (List.mem_reverse.1 hc)).1, List.reverse_reverse, String.ofList_toList]

theorem toAsciiLowercase_hexOf (g : Bytes) : toAsciiLowercase (hexOf g) = hexOf g := by
  have hmap : (hexOf g).toList.map Char.toLower = (hexOf g).toList := by
    conv_rhs => rw [← List.map_id (hexOf g).toList]
    exact List.map_congr_left fun c hc => (mem_hexOf hc).2
  rw [toAsciiLowercase, hmap, String.ofList_toList]

theorem ofNat_toNat_inj : Function.Injective fun x : UInt8 => Char.ofNat x.toNat := by
  have hnat : ∀ x : UInt8, (Char.ofNat x.toNat).toNat = x.toNat := by
    intro x
    have hvalid : x.toNat.isValidChar := Or.inl (by have := x.toNat_lt; omega)
    rw [Char.ofNat, dif_pos hvalid]
    rfl
  intro x y h
  have hxy := congrArg Char.toNat h
  simp only [hnat] at hxy
  exact UInt8.toNat_inj.1 hxy

theorem prefix_of_map {α β : Type} {f : α → β} (hf : Function.Injective f) {l l' : List α} (h : l.map f <+: l'.map f) :
    l <+: l' := by
  obtain ⟨m, hm, heq⟩ := List.prefix_map_iff.1 h
  rwa [List.map_injective_iff.2 hf heq]

theorem startsWith_hexOf {g g' : Bytes} : startsWith (hexOf g') (hexOf g) = true ↔ g <+: g' := by
  rw [startsWith, List.isPrefixOf_iff_prefix, hexOf_toList, hexOf_toList, ← hexEncode_prefix]
  exact ⟨prefix_of_map ofNat_toNat_inj, fun h => h.map _⟩

theorem conversation_groupId {s : Store} {g : Bytes} {c : Conversation} (h : conversation s g = some c) : c.groupId = g := by
  obtain ⟨r, -, rfl⟩ := Option.map_eq_some_iff.1 h
  rfl

theorem conversation_isSome {s : Store} {r : ConversationRow} (h : r ∈ s.conversations) :
    conversation s r.groupId = some ⟨r.groupId, r.creator, peersOf s r.groupId⟩ := by
  rw [conversation, Table.get?_eq_some.2 ⟨h, rfl⟩]
  rfl

theorem mem_conversations {s : Store} {c : Conversation} : c ∈ conversations s ↔ conversation s c.groupId = some c := by
  rw [conversations, List.mem_filterMap]
  constructor
  · rintro ⟨r, -, h⟩
    rw [conversation_groupId h]
    exact h
  · intro h
    obtain ⟨r, hr, -⟩ := Option.map_eq_some_iff.1 h
    obtain ⟨hmem, hid⟩ := Table.get?_eq_some.1 hr
    exact ⟨r, (List.mem_insertionSort _).2 hmem, hid ▸ h⟩

theorem conversations_nodup (s : Store) : (conversations s).Nodup := by
  have hall : conversations s = (s.conversations.rows.insertionSort fun a b => a.createdAt ≤ b.createdAt).map
      fun r => ⟨r.groupId, r.creator, peersOf s r.groupId⟩ := by
    rw [conversations, ← List.filterMap_eq_map]
    exact List.filterMap_congr fun r hr => conversation_isSome ((List.mem_insertionSort _).1 hr)
  rw [hall]
  refine List.Nodup.of_map Conversation.groupId ?_
  rw [List.map_map]
  exact ((List.perm_insertionSort _ _).map _).nodup_iff.2 s.conversations.nodup

/-- The matches of a full id: its conversation among those whose id extends it. -/
theorem mem_matches {s : Store} {g : Bytes} {c : Conversation} :
    c ∈ (conversations s).filter (fun c => startsWith (hexOf c.groupId) (hexOf g)) ↔
      conversation s c.groupId = some c ∧ g <+: c.groupId := by
  rw [List.mem_filter, mem_conversations, startsWith_hexOf]

theorem selectConversation_hexOf {s : Store} {g : Bytes} {c : Conversation} (h : conversation s g = some c) :
    selectConversation s (some (hexOf g)) = .ok c ↔
      (conversations s).filter (fun c => startsWith (hexOf c.groupId) (hexOf g)) = [c] := by
  have hmem : c ∈ conversations s := mem_conversations.2 (by rw [conversation_groupId h]; exact h)
  have hsome : (conversations s).isEmpty = false := by simpa using List.ne_nil_of_mem hmem
  simp only [selectConversation, hsome, Bool.false_eq_true, if_false, trim_hexOf, toAsciiLowercase_hexOf]
  split
  · next c' hc' =>
    rw [hc']
    simp
  · next hnone =>
    rw [hnone]
    simp
  · next hone _ =>
    constructor
    · intro h
      cases h
    · intro h
      exact absurd h (hone c)

theorem eq_singleton {α : Type} {l : List α} {a : α} (hnodup : l.Nodup) (hmem : a ∈ l) (hall : ∀ x ∈ l, x = a) : l = [a] := by
  cases l with
  | nil => cases hmem
  | cons x l =>
    obtain rfl := hall x List.mem_cons_self
    have hl : l = [] := List.eq_nil_iff_forall_not_mem.2 fun y hy =>
      (List.nodup_cons.1 hnodup).1 (hall y (List.mem_cons_of_mem _ hy) ▸ hy)
    rw [hl]

/-- A conversation is selected by its full id exactly when no other conversation's id
extends that id. -/
theorem full_id_selects_iff (s : Store) (g : Bytes) (c : Conversation) (h : conversation s g = some c) :
    selectConversation s (some (hexOf g)) = .ok c ↔ ∀ r ∈ s.conversations, g <+: r.groupId → r.groupId = g := by
  have hc : c.groupId = g := conversation_groupId h
  rw [selectConversation_hexOf h]
  constructor
  · intro hone r hr hextends
    have hmem : (⟨r.groupId, r.creator, peersOf s r.groupId⟩ : Conversation) ∈
        (conversations s).filter (fun c => startsWith (hexOf c.groupId) (hexOf g)) :=
      mem_matches.2 ⟨conversation_isSome hr, hextends⟩
    rw [hone, List.mem_singleton] at hmem
    rw [← hc, ← hmem]
  · intro hother
    refine eq_singleton ((conversations_nodup s).filter _) (mem_matches.2 ⟨hc ▸ h, hc ▸ List.prefix_refl _⟩) fun x hx => ?_
    obtain ⟨hx, hextends⟩ := mem_matches.1 hx
    obtain ⟨r, hr, -⟩ := Option.map_eq_some_iff.1 hx
    obtain ⟨hmem, hid⟩ := Table.get?_eq_some.1 hr
    have hg : x.groupId = g := by
      rw [← hid]
      exact hother r hmem (hid ▸ hextends)
    rw [hg, h] at hx
    exact (Option.some.inj hx).symm

def friend : Bytes := [1, 2, 3, 4, 5, 6, 7, 8]

/-- The store of a conversation, after a Welcome brought another with a chosen id. -/
def welcomed (id : Bytes) : Store :=
  (conversationSave 2 ⟨id, false, []⟩ (conversationSave 1 ⟨friend, true, []⟩ Store.empty).2).2

/-- An id that goes on after the friend's makes the friend's full id ambiguous. -/
theorem welcome_hides_conversation :
    ¬ ∀ (s : Store) (g : Bytes) (c : Conversation), conversation s g = some c →
      selectConversation s (some (hexOf g)) = .ok c := by
  intro h
  have hstored : conversation (welcomed (friend ++ [0])) friend = some ⟨friend, true, []⟩ := by decide +kernel
  have hambiguous : selectConversation (welcomed (friend ++ [0])) (some (hexOf friend)) = .error (.refused (.domain
      "0102030405060708 matches 2 conversations: 010203040506, 010203040506")) := by decide +kernel
  rw [h _ _ _ hstored] at hambiguous
  cases hambiguous

theorem other_id_changes_nothing :
    selectConversation (welcomed [1, 2, 3, 4, 5, 6, 7, 9]) (some (hexOf friend)) = .ok ⟨friend, true, []⟩ := by
  have hstored : conversation (welcomed [1, 2, 3, 4, 5, 6, 7, 9]) friend = some ⟨friend, true, []⟩ := by decide +kernel
  have hnone : ∀ r ∈ (welcomed [1, 2, 3, 4, 5, 6, 7, 9]).conversations.rows, friend <+: r.groupId → r.groupId = friend := by
    decide +kernel
  exact (full_id_selects_iff _ friend ⟨friend, true, []⟩ hstored).2 hnone

end Arveil.Client
