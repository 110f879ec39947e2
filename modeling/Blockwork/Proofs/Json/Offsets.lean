import Mathlib
import Blockwork.Json.Read

/-! How far into a text faults are found. A scan that begins inside a text of some size ends inside
it, and what is wrong there is found inside as well; so it is for all lexemes of a text. -/

namespace Blockwork.Json

open Text

variable {α β : Type} {limit : Nat}

/-! ### Faults within a text -/

/-- What the work fails with is found within the first `limit` bytes. -/
def FailsWithin (limit : Nat) (x : Except Fault α) : Prop := ∀ f, x = .error f → f.offset ≤ limit

namespace FailsWithin

theorem ok (a : α) : FailsWithin limit (.ok a : Except Fault α) := fun _ h => nomatch h

theorem error {f : Fault} (h : f.offset ≤ limit) : FailsWithin limit (.error f : Except Fault α) :=
  fun _ hf => Except.error.inj hf ▸ h

theorem bind {x : Except Fault α} {f : α → Except Fault β} (hx : FailsWithin limit x)
    (hf : ∀ a, x = .ok a → FailsWithin limit (f a)) : FailsWithin limit (x >>= f) := by
  cases x with
  | error e => exact .error (hx e rfl)
  | ok a => exact hf a rfl

theorem map {x : Except Fault α} (f : α → β) (hx : FailsWithin limit x) :
    FailsWithin limit (f <$> x) := by
  cases x with
  | error e => exact .error (hx e rfl)
  | ok a => exact .ok (f a)

theorem mapM {f : α → Except Fault β} {as : List α} (h : ∀ a ∈ as, FailsWithin limit (f a)) :
    FailsWithin limit (as.mapM f) := by
  induction as with
  | nil => exact .ok []
  | cons a rest ih =>
    rw [List.forall_mem_cons] at h
    rw [List.mapM_cons]
    exact h.1.bind fun b _ => (ih h.2).bind fun bs _ => .ok (b :: bs)

theorem succeedUnless {fault : Option Fault} (h : ∀ f ∈ fault, f.offset ≤ limit) :
    FailsWithin limit (succeedUnless fault) := by
  cases fault with
  | none => exact .ok ()
  | some f => exact .error (h f rfl)

end FailsWithin

/-! ### Strings -/

theorem byteCount_toList (s : String) : byteCount s.toList = s.utf8ByteSize := by
  have hsum : ∀ cs, byteCount cs = (String.ofList cs).utf8ByteSize := by
    intro cs
    induction cs with
    | nil => rfl
    | cons c rest ih =>
      rw [byteCount, ih, String.ofList_cons, String.utf8ByteSize_append,
        String.utf8ByteSize_singleton]
  rw [hsum, String.ofList_toList]

theorem length_le_byteCount (cs : List Char) : cs.length ≤ byteCount cs := by
  induction cs with
  | nil => exact Nat.le_refl 0
  | cons c rest ih =>
    have hpos := c.utf8Size_pos
    rw [List.length_cons, byteCount]
    omega

theorem drop_within {offset : Nat} (front : List Char) {rest : List Char}
    (h : offset + byteCount (front ++ rest) ≤ limit) :
    offset + front.length + byteCount rest ≤ limit := by
  have hfront := length_le_byteCount front
  rw [byteCount_append] at h
  omega

theorem dropWhile_within {offset : Nat} (f : Char → Bool) {cs : List Char}
    (h : offset + byteCount cs ≤ limit) :
    offset + (cs.takeWhile f).length + byteCount (cs.dropWhile f) ≤ limit :=
  drop_within (cs.takeWhile f) (by rwa [List.takeWhile_append_dropWhile])

def StringScan.Within (limit : Nat) : StringScan → Prop
  | .closed content stop rest => FailsWithin limit content ∧ stop + byteCount rest ≤ limit
  | .broken read skipped => read.offset ≤ limit ∧ skipped.offset ≤ limit

namespace StringScan.Within

variable {s : StringScan} {f : Fault}

theorem push (h : s.Within limit) (c : Char) : (s.push c).Within limit := by
  cases s with
  | closed content stop rest => exact ⟨h.1.map _, h.2⟩
  | broken read skipped => exact h

theorem fail (h : s.Within limit) (hf : f.offset ≤ limit) : (s.fail f).Within limit := by
  cases s with
  | closed content stop rest => exact ⟨.error hf, h.2⟩
  | broken read skipped => exact ⟨hf, h.2⟩

theorem unpaired (h : s.Within limit) (high : Option Nat) (hf : f.offset ≤ limit) :
    (s.unpaired high f).Within limit := by
  unfold StringScan.unpaired
  split
  · exact h.fail hf
  · exact h

theorem broken {read skipped : Fault} (hread : read.offset ≤ limit)
    (hskipped : skipped.offset ≤ limit) : (StringScan.broken read skipped).Within limit :=
  ⟨hread, hskipped⟩

end StringScan.Within

theorem hexFault_within {offset : Nat} {rest : List Char} (h : offset + byteCount rest ≤ limit) :
    (hexFault offset rest).offset ≤ limit := by
  unfold hexFault
  split
  · exact h
  · show offset + 4 ≤ limit
    omega

theorem scanString_within (high : Option Nat) {offset : Nat} {cs : List Char}
    (h : offset + byteCount cs ≤ limit) : (scanString high offset cs).Within limit := by
  fun_induction scanString high offset cs with
  | case1 high offset => exact .broken h h
  | case2 high offset rest =>
    have hrest : offset + 1 + byteCount rest ≤ limit := drop_within ['"'] h
    have hclosed : (StringScan.closed (.ok []) (offset + 1) rest).Within limit := ⟨.ok [], hrest⟩
    exact hclosed.unpaired high (Nat.le_of_add_right_le hrest)
  | case3 high offset =>
    have hrest : offset + 1 + byteCount [] ≤ limit := drop_within ['\\'] h
    exact .broken hrest hrest
  | case4 high offset a b c d rest hunit =>
    have hrest := drop_within ['\\', 'u', a, b, c, d] h
    exact .broken (Nat.le_of_add_right_le hrest) (Nat.le_of_add_right_le hrest)
  | case5 offset a b c d rest unit hunit hlow high ih =>
    exact (ih (drop_within ['\\', 'u', a, b, c, d] h)).push _
  | case6 offset a b c d rest unit hunit hlow ih =>
    have hrest := drop_within ['\\', 'u', a, b, c, d] h
    exact (ih hrest).fail (Nat.le_of_add_right_le hrest)
  | case7 high offset a b c d rest unit hunit hlow hhigh ih =>
    have hrest := drop_within ['\\', 'u', a, b, c, d] h
    exact (ih hrest).unpaired high (Nat.le_of_add_right_le hrest)
  | case8 high offset a b c d rest unit hunit hlow hhigh ih =>
    have hrest := drop_within ['\\', 'u', a, b, c, d] h
    exact ((ih hrest).push _).unpaired high (Nat.le_of_add_right_le hrest)
  | case9 high offset rest hdigits =>
    have hfault := hexFault_within (drop_within ['\\', 'u'] h)
    exact .broken hfault hfault
  | case10 high offset c rest hdigits hu ih =>
    have hrest : offset + 2 + byteCount rest ≤ limit := drop_within ['\\', c] h
    refine StringScan.Within.unpaired ?_ high (Nat.le_of_add_right_le hrest)
    split
    · exact (ih hrest).push _
    · exact .broken (Nat.le_of_add_right_le hrest) (Nat.le_of_add_right_le hrest)
  | case11 high offset c rest _ _ _ _ ih =>
    -- A control character is read before it is refused, and skipped over without being read.
    have hnext : offset + 1 ≤ limit := Nat.le_of_add_right_le (drop_within [c] h)
    refine StringScan.Within.unpaired ?_ high hnext
    split
    · exact .broken hnext (Nat.le_of_succ_le hnext)
    · exact (ih (Nat.add_assoc .. ▸ h)).push c

/-! ### Numbers -/

def NumberScan.Within (limit : Nat) : NumberScan → Prop
  | .closed value stop rest => FailsWithin limit value ∧ stop + byteCount rest ≤ limit
  | .broken read skipped => read.offset ≤ limit ∧ skipped.offset ≤ limit

theorem exponentOverflow?_le {value count n : Nat} {ds : List Char}
    (h : NumberParts.exponentOverflow? value count ds = some n) : n ≤ count + ds.length := by
  induction ds generalizing value count with
  | nil => exact absurd h (by simp [NumberParts.exponentOverflow?])
  | cons d ds ih =>
    rw [NumberParts.exponentOverflow?] at h
    split at h
    · have hn := ih h
      rw [List.length_cons]
      omega
    · obtain rfl := Option.some.inj h
      rw [List.length_cons]
      omega

theorem value_failsWithin {p : NumberParts} {stop : Nat} (hp : p.exponent.length ≤ stop)
    (hstop : stop ≤ limit) : FailsWithin limit (p.value stop) := by
  unfold NumberParts.value
  dsimp only
  split
  · exact .ok _
  · split
    · exact .ok _
    · split
      · rename_i count hcount
        split
        · have hle := exponentOverflow?_le hcount
          exact .error (show stop - p.exponent.length + count ≤ limit by omega)
        · exact .ok _
      · split
        · exact .ok _
        · exact .error hstop

theorem digitFaults_within {offset : Nat} {cs : List Char} (h : offset + byteCount cs ≤ limit) :
    (digitFaults offset cs).Within limit := by
  cases cs with
  | nil => exact ⟨h, h⟩
  | cons c rest =>
    have hnext : offset + 1 ≤ limit := Nat.le_of_add_right_le (drop_within [c] h)
    exact ⟨hnext, hnext⟩

theorem scanExponentDigits_within (p : NumberParts) (negative : Bool) {offset : Nat}
    {cs : List Char} (h : offset + byteCount cs ≤ limit) :
    (scanExponentDigits p negative offset cs).Within limit := by
  unfold scanExponentDigits
  dsimp only
  split
  · exact digitFaults_within h
  · have hrest := dropWhile_within Char.isDigit h
    exact ⟨value_failsWithin (Nat.le_add_left ..) (Nat.le_of_add_right_le hrest), hrest⟩

theorem scanExponent_within {p : NumberParts} {offset : Nat} {cs : List Char}
    (hp : p.exponent.length ≤ offset) (h : offset + byteCount cs ≤ limit) :
    (scanExponent p offset cs).Within limit := by
  unfold scanExponent
  split
  case h_1 rest => exact scanExponentDigits_within p false (drop_within ['e', '+'] h)
  case h_2 rest => exact scanExponentDigits_within p false (drop_within ['E', '+'] h)
  case h_3 rest => exact scanExponentDigits_within p true (drop_within ['e', '-'] h)
  case h_4 rest => exact scanExponentDigits_within p true (drop_within ['E', '-'] h)
  case h_5 rest _ _ => exact scanExponentDigits_within p false (drop_within ['e'] h)
  case h_6 rest _ _ => exact scanExponentDigits_within p false (drop_within ['E'] h)
  case h_7 => exact ⟨value_failsWithin hp (Nat.le_of_add_right_le h), h⟩

theorem scanFraction_within {p : NumberParts} {offset : Nat} {cs : List Char}
    (hp : p.exponent.length ≤ offset) (h : offset + byteCount cs ≤ limit) :
    (scanFraction p offset cs).Within limit := by
  unfold scanFraction
  split
  · rename_i rest
    have hrest : offset + 1 + byteCount rest ≤ limit := drop_within ['.'] h
    dsimp only
    split
    · exact digitFaults_within hrest
    · exact scanExponent_within (by dsimp only; omega) (dropWhile_within Char.isDigit hrest)
  · exact scanExponent_within hp h

theorem scanWhole_within (negative : Bool) {offset : Nat} {cs : List Char}
    (h : offset + byteCount cs ≤ limit) : (scanWhole negative offset cs).Within limit := by
  have hrest := dropWhile_within Char.isDigit h
  unfold scanWhole
  dsimp only
  split
  · exact digitFaults_within h
  · split
    · rename_i hzero
      have htwo : 1 < (cs.takeWhile Char.isDigit).length := by
        simpa using (Bool.and_eq_true_iff.1 hzero).2
      have hfault : offset + 2 ≤ limit := by omega
      exact ⟨hfault, hfault⟩
    · exact scanFraction_within (Nat.zero_le _) hrest

/-! ### Lexemes -/

def Lexeme.Within (limit : Nat) : Lexeme → Prop
  | .scalar value => FailsWithin limit value
  | .string content => FailsWithin limit content
  | .broken _ read skipped => read.offset ≤ limit ∧ skipped.offset ≤ limit
  | _ => True

structure Token.Within (limit : Nat) (t : Token) : Prop where
  start : t.start < limit
  stop : t.stop ≤ limit
  lexeme : t.lexeme.Within limit

namespace TokenScan

structure Within (limit : Nat) (s : TokenScan) : Prop where
  token : s.token.Within limit
  rest : s.token.stop + byteCount s.rest ≤ limit

variable {start : Nat}

theorem Within.broken {read skipped : Fault} (quoted : Bool) (hstart : start < limit)
    (hread : read.offset ≤ limit) (hskipped : skipped.offset ≤ limit) :
    Within limit ⟨⟨start, start, .broken quoted read skipped⟩, []⟩ :=
  ⟨⟨hstart, hstart.le, hread, hskipped⟩, hstart.le⟩

theorem ofMark_within {lexeme : Lexeme} (hlexeme : lexeme.Within limit) {rest : List Char}
    (h : start + 1 + byteCount rest ≤ limit) : (ofMark start lexeme rest).Within limit :=
  have hstop : start + 1 ≤ limit := Nat.le_of_add_right_le h
  ⟨⟨hstop, hstop, hlexeme⟩, h⟩

theorem scanWord_within (word : List Char) {offset : Nat} {cs : List Char}
    (h : offset + byteCount cs ≤ limit) : FailsWithin limit (scanWord offset word cs) ∧
      ∀ rest, scanWord offset word cs = .ok rest →
        offset + word.length + byteCount rest ≤ limit := by
  fun_induction scanWord offset word cs with
  | case1 offset cs => exact ⟨.ok cs, fun rest hrest => Except.ok.inj hrest ▸ h⟩
  | case2 offset w ws => exact ⟨.error h, fun _ hrest => by cases hrest⟩
  | case3 offset ws w cs ih =>
    obtain ⟨hfails, hrest⟩ := ih (drop_within [w] h)
    refine ⟨hfails, fun rest heq => ?_⟩
    have hle := hrest rest heq
    rw [List.length_cons]
    omega
  | case4 offset w ws c cs hne =>
    exact ⟨.error (Nat.le_of_add_right_le (drop_within [c] h)), fun _ hrest => by cases hrest⟩

theorem ofWord_within (letters : List Char) (value : Json) {rest : List Char}
    (h : start + 1 + byteCount rest ≤ limit) : (ofWord start letters value rest).Within limit := by
  have hstart : start < limit := Nat.le_of_add_right_le h
  obtain ⟨hfails, hrest⟩ := scanWord_within letters h
  unfold ofWord
  split
  · have hbehind := hrest _ ‹_›
    exact ⟨⟨hstart, Nat.le_of_add_right_le hbehind, .ok value⟩, hbehind⟩
  · have hfault := hfails _ ‹_›
    exact .broken false hstart hfault hfault

theorem ofNumber_within {s : NumberScan} (hstart : start < limit) (h : s.Within limit) :
    (ofNumber start s).Within limit := by
  cases s with
  | closed value stop rest => exact ⟨⟨hstart, Nat.le_of_add_right_le h.2, h.1⟩, h.2⟩
  | broken read skipped => exact .broken false hstart h.1 h.2

theorem ofString_within {s : StringScan} (hstart : start < limit) (h : s.Within limit) :
    (ofString start s).Within limit := by
  cases s with
  | closed content stop rest => exact ⟨⟨hstart, Nat.le_of_add_right_le h.2, h.1.map _⟩, h.2⟩
  | broken read skipped => exact .broken true hstart h.1 h.2

theorem read_within {c : Char} {rest : List Char} (h : start + byteCount (c :: rest) ≤ limit) :
    (read start c rest).Within limit := by
  have hrest : start + 1 + byteCount rest ≤ limit := drop_within [c] h
  have hstart : start < limit := Nat.le_of_add_right_le hrest
  unfold read
  split
  case h_7 | h_8 | h_9 => exact ofWord_within _ _ hrest
  case h_10 => exact ofString_within hstart (scanString_within none hrest)
  case h_11 => exact ofNumber_within hstart (scanWhole_within true hrest)
  case h_12 =>
    split
    · exact ofNumber_within hstart (scanWhole_within false h)
    · exact .broken false hstart hstart hstart
  all_goals exact ofMark_within (by trivial) hrest

end TokenScan

theorem lex_within {offset : Nat} {cs : List Char} (h : offset + byteCount cs ≤ limit) :
    ∀ t ∈ lex offset cs, t.Within limit := by
  fun_induction lex offset cs with
  | case1 offset => exact fun _ ht => absurd ht List.not_mem_nil
  | case2 offset c rest hspace ih => exact ih (drop_within [c] h)
  | case3 offset c rest hspace scan ih =>
    have hscan : scan.Within limit := TokenScan.read_within h
    exact List.forall_mem_cons.2 ⟨hscan.token, ih hscan.rest⟩

end Blockwork.Json
