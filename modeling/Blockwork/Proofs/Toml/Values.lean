import Blockwork.Proofs.Toml.Strings
import Blockwork.Proofs.Toml.Words

/-! Values without tables and moments are read back from their texts just if their arrays nest in
fewer levels than the reader goes down. -/

namespace Blockwork.Toml

mutual

/-- Strings, numbers that fit, truth values, and arrays of such. -/
def IsPlain : Toml → Prop
  | .integer n => isInteger n = true
  | .float _ | .boolean _ | .string _ => True
  | .moment _ | .table _ => False
  | .array items => ArePlain items

def ArePlain : List Toml → Prop
  | [] => True
  | item :: rest => item.IsPlain ∧ ArePlain rest

end

mutual

/-- The levels of arrays, of which an empty one is a level too. -/
def levels : Toml → ℕ
  | .array items => levelsOfItems items + 1
  | .integer _ | .float _ | .boolean _ | .string _ | .moment _ | .table _ => 0

def levelsOfItems : List Toml → ℕ
  | [] => 0
  | item :: rest => max item.levels (levelsOfItems rest)

end

def StartsValue : List Char → Prop
  | [] => False
  | c :: _ => c ≠ ' ' ∧ c ≠ '\t' ∧ c ≠ '\n' ∧ c ≠ '\r' ∧ c ≠ '#' ∧ c ≠ ']'

theorem EndsValue.endsString {rest : List Char} (h : EndsValue rest) : EndsString rest := by
  intro t
  constructor <;> rintro rfl <;> rcases h with h | h | h <;> cases h

theorem StartsValue.append {cs : List Char} (h : StartsValue cs) (rest : List Char) :
    StartsValue (cs ++ rest) := by
  cases cs with
  | nil => exact absurd h id
  | cons c cs => exact h

theorem StartsValue.skipSpace_eq {cs : List Char} (h : StartsValue cs) : skipSpace false cs = cs := by
  cases cs with
  | nil => rfl
  | cons c cs =>
    obtain ⟨hblank, htab, hline, hreturn, hcomment, -⟩ := h
    rw [skipSpace]
    · simp [hblank, htab, hline, hcomment]
    · simp [hreturn]

theorem StartsValue.ne_bracket {cs : List Char} (h : StartsValue cs) (rest : List Char) :
    cs ≠ ']' :: rest := by
  rintro rfl
  exact h.2.2.2.2.2 rfl

theorem EndsValue.skipSpace_eq {c : Char} (h : c = ',' ∨ c = ']') (cs : List Char) :
    skipSpace false (c :: cs) = c :: cs := by
  rcases h with rfl | rfl <;> rfl

section Words

variable {word : List Char} {t : Toml}

theorem IsWord.exists_cons (h : IsWord word t) :
    ∃ c cs, word = c :: cs ∧ isWordChar c = true := by
  obtain ⟨c, cs, rfl⟩ := List.exists_cons_of_ne_nil h.ne_nil
  exact ⟨c, cs, rfl, h.chars c List.mem_cons_self⟩

theorem IsWord.startsValue (h : IsWord word t) : StartsValue word := by
  obtain ⟨c, cs, rfl, hc⟩ := h.exists_cons
  refine ⟨?_, ?_, ?_, ?_, ?_, ?_⟩ <;> rintro rfl <;> exact absurd hc (by decide)

theorem IsWord.takeValue?_eq (h : IsWord word t) {rest : List Char} (hrest : EndsValue rest)
    (fuel depth : ℕ) : takeValue? (fuel + 1) depth (word ++ rest) = some (t, rest) := by
  have htake := takeWord_append h.chars hrest
  obtain ⟨c, cs, rfl, hc⟩ := h.exists_cons
  have hne : c ≠ '"' ∧ c ≠ '\'' ∧ c ≠ '[' ∧ c ≠ '\x7b' := by
    refine ⟨?_, ?_, ?_, ?_⟩ <;> rintro rfl <;> exact absurd hc (by decide)
  have hline : takeLine? (c :: cs ++ rest) = none := by
    rw [List.cons_append, takeLine?] <;> simp [hne]
  have hstring : takeString? (c :: cs ++ rest) = none := by
    rw [← hline, takeString?] <;> simp [hne]
  rw [takeValue?, hstring]
  · simp only [List.cons_append] at htake ⊢
    rw [htake, h.read]
    rfl
  all_goals simp [hne]

end Words

theorem takeString?_bracket (cs : List Char) : takeString? ('[' :: cs) = none := rfl

theorem startsValue_stringText (s : String) : StartsValue (stringText s).toList := by
  unfold stringText
  dsimp only
  split_ifs <;> simp [basic, literal, basicBlock, literalBlock, fence, StartsValue]

theorem startsValue_render {t : Toml} (h : t.IsPlain) : StartsValue t.render.toList := by
  cases t with
  | integer n => rw [render]; exact (isWord_intText h).startsValue
  | float x => rw [render]; exact (isWord_float x).startsValue
  | boolean b => rw [render]; exact (isWord_boolean b).startsValue
  | string s => rw [render]; exact startsValue_stringText s
  | moment m => exact absurd h id
  | array items => rw [render]; simp [StartsValue]
  | table members => exact absurd h id

theorem length_render_pos {t : Toml} (h : t.IsPlain) : 0 < t.render.toList.length := by
  have hstart := startsValue_render h
  cases hchars : t.render.toList with
  | nil => rw [hchars] at hstart; exact absurd hstart id
  | cons c cs => exact Nat.succ_pos _

theorem renderItems_cons (item next : Toml) (items : List Toml) :
    renderItems (item :: next :: items) = item.render ++ ", " ++ renderItems (next :: items) := by
  rw [renderItems]
  simp

theorem skipSpace_items {items : List Toml} (h : ArePlain items) (rest : List Char) :
    skipSpace false ((renderItems items).toList ++ ']' :: rest) =
      (renderItems items).toList ++ ']' :: rest := by
  match items, h with
  | [], _ => rfl
  | [item], h => exact ((startsValue_render h.1).append _).skipSpace_eq
  | item :: next :: items, h =>
    rw [renderItems_cons, String.toList_append, String.toList_append, List.append_assoc,
      List.append_assoc]
    exact ((startsValue_render h.1).append _).skipSpace_eq

mutual

theorem takeValue?_render : ∀ {t : Toml}, t.IsPlain → ∀ {rest : List Char}, EndsValue rest →
    ∀ {fuel depth : ℕ}, 2 * t.render.toList.length ≤ fuel → depth < depthLimit →
      takeValue? fuel depth (t.render.toList ++ rest) =
        if depth + t.levels < depthLimit then some (t, rest) else none
  | t, h, rest, hrest, 0, _, hfuel, _ => by
    have := length_render_pos h
    omega
  | .integer n, h, rest, hrest, fuel + 1, depth, _, hdepth => by
    rw [render]
    exact ((isWord_intText h).takeValue?_eq hrest fuel depth).trans (if_pos hdepth).symm
  | .float x, _, rest, hrest, fuel + 1, depth, _, hdepth => by
    rw [render]
    exact ((isWord_float x).takeValue?_eq hrest fuel depth).trans (if_pos hdepth).symm
  | .boolean b, _, rest, hrest, fuel + 1, depth, _, hdepth => by
    rw [render]
    exact ((isWord_boolean b).takeValue?_eq hrest fuel depth).trans (if_pos hdepth).symm
  | .string s, _, rest, hrest, fuel + 1, depth, _, hdepth => by
    have hread : takeValue? (fuel + 1) depth ((stringText s).toList ++ rest) =
        some (.string s, rest) := by
      unfold takeValue?
      simp only [takeString?_stringText s hrest.endsString, Option.map_some, String.ofList_toList]
    rw [render]
    exact hread.trans (if_pos hdepth).symm
  | .array items, h, rest, hrest, fuel + 1, depth, hfuel, _ => by
    have htext : (render (.array items)).toList ++ rest =
        '[' :: ((renderItems items).toList ++ ']' :: rest) := by
      simp [render]
    have hlength : (render (.array items)).toList.length =
        (renderItems items).toList.length + 2 := by
      simp [render]
    rw [hlength] at hfuel
    rw [htext, takeValue?, takeString?_bracket, levels]
    dsimp only
    by_cases hdepth : depth + 1 < depthLimit
    · rw [if_pos hdepth, skipSpace_items h, takeItems?_render h rest (by omega : _ ≤ fuel) hdepth,
        Nat.add_right_comm depth 1, Nat.add_assoc depth]
      split_ifs <;> rfl
    · rw [if_neg hdepth, if_neg (by omega)]

theorem takeItems?_render : ∀ {items : List Toml}, ArePlain items → ∀ (rest : List Char)
    {fuel depth : ℕ}, 2 * (renderItems items).toList.length + 1 ≤ fuel → depth < depthLimit →
      takeItems? fuel depth ((renderItems items).toList ++ ']' :: rest) =
        if depth + levelsOfItems items < depthLimit then some (items, rest) else none
  | items, _, rest, 0, _, hfuel, _ => by omega
  | [], _, rest, fuel + 1, depth, _, hdepth => by
    show takeItems? (fuel + 1) depth (']' :: rest) = _
    rw [takeItems?]
    exact (if_pos hdepth).symm
  | [item], h, rest, fuel + 1, depth, hfuel, hdepth => by
    have hend : EndsValue (']' :: rest) := .inr (.inl rfl)
    have hopen := ((startsValue_render h.1).append (']' :: rest)).ne_bracket
    rw [renderItems] at hfuel ⊢
    rw [takeItems?]
    · rw [takeValue?_render h.1 hend (by omega : _ ≤ fuel) hdepth, levelsOfItems, levelsOfItems,
        Nat.max_zero]
      split_ifs
      · simp only [Option.bind_eq_bind, Option.bind_some, EndsValue.skipSpace_eq (.inr rfl)]
        rfl
      · rfl
    · exact hopen
  | item :: next :: items, h, rest, fuel + 1, depth, hfuel, hdepth => by
    have hend : EndsValue (',' :: ' ' :: ((renderItems (next :: items)).toList ++ ']' :: rest)) :=
      .inl rfl
    have hopen := ((startsValue_render h.1).append
      (',' :: ' ' :: ((renderItems (next :: items)).toList ++ ']' :: rest))).ne_bracket
    have htext : (renderItems (item :: next :: items)).toList ++ ']' :: rest = item.render.toList ++
        ',' :: ' ' :: ((renderItems (next :: items)).toList ++ ']' :: rest) := by
      simp [renderItems_cons]
    -- the fuel covers the text, and every item is shorter than the items together
    have hlength : (renderItems (item :: next :: items)).toList.length =
        item.render.toList.length + 2 + (renderItems (next :: items)).toList.length := by
      simp [renderItems_cons]
      omega
    rw [hlength] at hfuel
    have hspace : skipSpace false (' ' :: ((renderItems (next :: items)).toList ++ ']' :: rest)) =
        (renderItems (next :: items)).toList ++ ']' :: rest := skipSpace_items h.2 rest
    have hlevels : depth + levelsOfItems (item :: next :: items) < depthLimit ↔
        depth + item.levels < depthLimit ∧ depth + levelsOfItems (next :: items) < depthLimit := by
      rw [levelsOfItems]
      omega
    rw [htext, takeItems?]
    · rw [takeValue?_render h.1 hend (by omega : _ ≤ fuel) hdepth]
      by_cases hitem : depth + item.levels < depthLimit
      · rw [if_pos hitem]
        simp only [hlevels, hitem, true_and, Option.bind_eq_bind, Option.bind_some,
          EndsValue.skipSpace_eq (.inl rfl), hspace,
          takeItems?_render h.2 rest (by omega : _ ≤ fuel) hdepth]
        split_ifs <;> rfl
      · rw [if_neg hitem, if_neg fun h => hitem (hlevels.1 h).1]
        rfl
    · exact hopen

end

end Blockwork.Toml
