import Blockwork.Proofs.Graph.Offsets

/-! Where faults are reported. A line and a column count the bytes up to a fault, and the span that a
report underlines is computed from the two alone: so it has to come back to the byte in front of the
fault, on the line that is reported. -/

namespace Blockwork

open Json

def bytes (source : String) : List UInt8 := source.toByteArray.data.toList

theorem bytes_eq (source : String) :
    bytes source = source.toList.flatMap String.utf8EncodeChar := by
  rw [bytes, ← String.utf8Encode_toList, List.utf8Encode, List.data_toByteArray]

/-- A newline is a byte of its own, which no other character has among its bytes. -/
theorem newline_not_mem_encode {c : Char} (h : c ≠ '\n') :
    (10 : UInt8) ∉ String.utf8EncodeChar c := by
  have hval : c.val.toNat ≠ 10 := fun heq => h (Char.toNat_inj.1 heq)
  have hne : ∀ n : Nat, n % 256 ≠ 10 → (10 : UInt8) ≠ UInt8.ofNat n := fun n hn heq =>
    hn (congrArg UInt8.toNat heq).symm
  unfold String.utf8EncodeChar
  dsimp only
  split
  · exact fun hmem => hne _ (by omega) (List.mem_singleton.1 hmem)
  · split
    · simp only [List.mem_cons, List.not_mem_nil, or_false, not_or]
      exact ⟨hne _ (by omega), hne _ (by omega)⟩
    · split
      · simp only [List.mem_cons, List.not_mem_nil, or_false, not_or]
        exact ⟨hne _ (by omega), hne _ (by omega), hne _ (by omega)⟩
      · simp only [List.mem_cons, List.not_mem_nil, or_false, not_or]
        exact ⟨hne _ (by omega), hne _ (by omega), hne _ (by omega), hne _ (by omega)⟩

namespace Place

variable {front rest : List UInt8}

/-- The place behind the first bytes of a source: the newlines among them, and the bytes behind the
last of these. -/
def behind (front : List UInt8) : Place where
  line := 1 + front.count 10
  column := (front.rtakeWhile (· ≠ 10)).length

def step (p : Place) (b : UInt8) : Place :=
  if b = 10 then ⟨p.line + 1, 0⟩ else ⟨p.line, p.column + 1⟩

theorem behind_concat (front : List UInt8) (b : UInt8) :
    behind (front ++ [b]) = (behind front).step b := by
  unfold behind step
  rw [List.count_append, List.rtakeWhile_concat]
  split <;> simp_all [Nat.add_assoc]

theorem behind_eq_foldl (front : List UInt8) : behind front = front.foldl step ⟨1, 0⟩ := by
  induction front using List.reverseRecOn with
  | nil => rfl
  | append_singleton front b ih => rw [behind_concat, ih, List.foldl_concat]

theorem foldl_step_of_not_mem {bs : List UInt8} (h : 10 ∉ bs) (p : Place) :
    bs.foldl step p = ⟨p.line, p.column + bs.length⟩ := by
  induction bs generalizing p with
  | nil => rfl
  | cons b rest ih =>
    rw [List.mem_cons, not_or] at h
    rw [List.foldl_cons, ih h.2, step, if_neg (Ne.symm h.1), List.length_cons, Nat.add_assoc,
      Nat.add_comm 1]

theorem advance_eq_foldl (p : Place) (cs : List Char) (k : Nat) :
    p.advance cs k = ((cs.flatMap String.utf8EncodeChar).take k).foldl step p := by
  induction cs generalizing p k with
  | nil => simp [advance]
  | cons c rest ih =>
    have hlength := String.length_utf8EncodeChar c
    rw [List.flatMap_cons, List.take_append, hlength, List.foldl_append, advance]
    split
    · -- Only a newline has newline bytes, and all of its bytes are reached at once.
      have hplain : 10 ∉ (String.utf8EncodeChar c).take k := fun hmem => by
        by_cases hc : c = '\n'
        · subst hc
          have hzero : k = 0 := Nat.lt_one_iff.1 ‹_›
          rw [hzero] at hmem
          exact List.not_mem_nil hmem
        · exact newline_not_mem_encode hc (List.mem_of_mem_take hmem)
      have hk : k - c.utf8Size = 0 := by omega
      rw [foldl_step_of_not_mem hplain, hk, List.take_zero, List.foldl_nil, List.length_take,
        hlength, Nat.min_eq_left (by omega)]
    · rw [List.take_of_length_le (by omega)]
      split
      · subst c
        exact ih _ _
      · rw [ih, foldl_step_of_not_mem (newline_not_mem_encode ‹_›), hlength]

theorem ofOffset_eq_behind (source : String) (k : Nat) :
    ofOffset source k = behind ((bytes source).take k) := by
  rw [ofOffset, advance_eq_foldl, behind_eq_foldl, bytes_eq]

/-! ### From places to bytes -/

def lineBytes (lines : Nat) : List UInt8 → Nat
  | [] => 0
  | b :: rest => if lines = 0 then 0 else 1 + lineBytes (if b = 10 then lines - 1 else lines) rest

theorem lineBytes_zero (bs : List UInt8) : lineBytes 0 bs = 0 := by
  cases bs <;> rfl

theorem lineBytes_append (front rest : List UInt8) {lines : Nat} (h : lines ≠ 0) :
    lineBytes (front.count 10 + lines) (front ++ rest) = front.length + lineBytes lines rest := by
  induction front with
  | nil => simp
  | cons b front ih =>
    have hne : (b :: front).count 10 + lines ≠ 0 := by omega
    have hlines : (if b = 10 then (b :: front).count 10 + lines - 1
        else (b :: front).count 10 + lines) = front.count 10 + lines := by
      split
      · subst b
        rw [List.count_cons_self]
        omega
      · rw [List.count_cons_of_ne ‹_›]
    rw [List.cons_append, lineBytes, if_neg hne, hlines, ih, List.length_cons]
    omega

theorem linesSize_eq_lineBytes (lines : Nat) (cs : List Char) :
    linesSize lines cs = lineBytes lines (cs.flatMap String.utf8EncodeChar) := by
  induction cs generalizing lines with
  | nil => rfl
  | cons c rest ih =>
    rw [linesSize, List.flatMap_cons]
    split
    · rw [‹lines = 0›, lineBytes_zero]
    · by_cases hc : c = '\n'
      · subst c
        show 1 + linesSize (lines - 1) rest =
          lineBytes lines (10 :: rest.flatMap String.utf8EncodeChar)
        rw [ih, lineBytes, if_neg ‹lines ≠ 0›, if_pos rfl]
      · have hcount : (String.utf8EncodeChar c).count 10 = 0 :=
          List.count_eq_zero.2 (newline_not_mem_encode hc)
        have happend := lineBytes_append (String.utf8EncodeChar c)
          (rest.flatMap String.utf8EncodeChar) ‹lines ≠ 0›
        rw [hcount, Nat.zero_add, String.length_utf8EncodeChar] at happend
        rw [happend, if_neg hc, ih]

theorem lineBytes_add_column (front rest : List UInt8) :
    lineBytes (front.count 10) (front ++ rest) + (behind front).column = front.length := by
  -- The column counts from the last newline, so the bytes are taken from the end.
  induction front using List.reverseRecOn generalizing rest with
  | nil => rw [List.nil_append]; exact congrArg (· + 0) (lineBytes_zero rest)
  | append_singleton front b ih =>
    rw [behind_concat, step, List.append_assoc, List.singleton_append, List.count_append,
      List.length_append]
    split
    · subst b
      have hline := lineBytes_append front (10 :: rest) Nat.one_ne_zero
      rwa [lineBytes, if_neg Nat.one_ne_zero, if_pos rfl, lineBytes_zero] at hline
    · have hmore := ih (b :: rest)
      rw [List.count_singleton, if_neg (by simpa using ‹_›)]
      exact congrArg (· + 1) hmore

section

variable {source : String} {k : Nat} (hk : k ≤ source.utf8ByteSize)
include hk

/-- A place behind the first bytes speaks of the last of them, unless it begins its line. -/
theorem offset_behind : (behind ((bytes source).take k)).offset source =
    if (behind ((bytes source).take k)).column = 0 then k else k - 1 := by
  have hlength : ((bytes source).take k).length = k := List.length_take_of_le hk
  have hlines := lineBytes_add_column ((bytes source).take k) ((bytes source).drop k)
  rw [List.take_append_drop, hlength] at hlines
  have hline : (behind ((bytes source).take k)).line = 1 + ((bytes source).take k).count 10 := rfl
  have hsize : linesSize ((behind ((bytes source).take k)).line - 1) source.toList =
      lineBytes (((bytes source).take k).count 10) (bytes source) := by
    rw [hline, Nat.add_sub_cancel_left, linesSize_eq_lineBytes, ← bytes_eq]
  rw [offset, if_neg (by omega), hsize]
  split <;> omega

theorem line_behind_offset :
    (behind ((bytes source).take ((behind ((bytes source).take k)).offset source))).line =
      (behind ((bytes source).take k)).line := by
  rw [offset_behind hk]
  split
  · rfl
  · cases k with
    | zero => rfl
    | succ j =>
      rename_i hcolumn
      have hj : j < (bytes source).length := hk
      have hlast := List.take_succ_eq_append_getElem hj
      rw [hlast, behind_concat, step] at hcolumn ⊢
      split at hcolumn
      · exact absurd rfl hcolumn
      · rw [if_neg ‹_›]
        rfl

end

end Place

/-- A fault is reported where it is found: the line and the column count the newlines before it and
the bytes behind the last of these. From them the byte in front of it is found again, or the byte
itself where its line begins, so that the span is at most one byte of the source and begins on the
line. -/
theorem load_error_position :
    (∀ (source : String) (k : Nat), k ≤ source.utf8ByteSize →
      (Place.behind ((bytes source).take k)).offset source =
        if (Place.behind ((bytes source).take k)).column = 0 then k else k - 1) ∧
    ∀ (source : String) (file : Nat) (e : LoadError), Graph.load source file = .error e →
      ∃ cause k span, k ≤ source.utf8ByteSize ∧
        e = .malformed cause (Place.behind ((bytes source).take k)) span file ∧
        span.start ≤ span.stop ∧ span.stop ≤ source.utf8ByteSize ∧ span.stop ≤ span.start + 1 ∧
        (Place.behind ((bytes source).take span.start)).line =
          (Place.behind ((bytes source).take k)).line := by
  refine ⟨fun source k hk => Place.offset_behind hk, fun source file e h => ?_⟩
  unfold Graph.load at h
  split at h
  · cases h
  · rename_i f hread
    obtain rfl := Except.error.inj h
    have hk : f.offset ≤ source.utf8ByteSize := graph_read_within source f hread
    have hoffset := Place.offset_behind hk
    have hstart : (Place.behind ((bytes source).take f.offset)).offset source ≤
        source.utf8ByteSize := by
      rw [hoffset]
      split <;> omega
    unfold LoadError.ofFault
    rw [Place.ofOffset_eq_behind]
    refine ⟨f.cause, f.offset, _, hk, rfl, ?_⟩
    dsimp only
    exact ⟨by omega, by omega, by omega, Place.line_behind_offset hk⟩

def strayComma : String := "\x7b\n  \"blocks\": [\n    \x7b \"type\": \"é\", \x7d\n"

theorem strayComma_load_error_position : ∃ cause k span, k ≤ strayComma.utf8ByteSize ∧
    Graph.load strayComma 7 =
      .error (.malformed cause (Place.behind ((bytes strayComma).take k)) span 7) ∧
    Place.behind ((bytes strayComma).take k) = ⟨3, 21⟩ ∧ span = ⟨36, 37⟩ ∧
    (Place.behind ((bytes strayComma).take k)).offset strayComma = k - 1 ∧
    (Place.behind ((bytes strayComma).take span.start)).line = 3 := by
  have hoffset : ((Graph.read strayComma).mapError Fault.offset).map (fun _ => ()) = .error 37 := by
    decide +kernel
  cases hread : Graph.read strayComma with
  | ok graph =>
    rw [hread] at hoffset
    cases hoffset
  | error f =>
    rw [hread] at hoffset
    have hload : Graph.load strayComma 7 = .error (.ofFault strayComma 7 f) := by
      rw [Graph.load, hread]
    obtain ⟨cause, k, span, hk, he, -, -, -, hline⟩ := load_error_position.2 _ _ _ hload
    have hmalformed := he
    rw [LoadError.ofFault, Except.error.inj hoffset] at hmalformed
    obtain ⟨-, hplace, rfl, -⟩ := LoadError.malformed.inj hmalformed
    have hbehind : Place.behind ((bytes strayComma).take k) = ⟨3, 21⟩ :=
      hplace.symm.trans (by decide)
    have hback := load_error_position.1 strayComma k hk
    rw [hbehind] at hback hline
    exact ⟨cause, k, _, hk, he ▸ hload, hbehind, by decide, by rw [hbehind]; exact hback, hline⟩

end Blockwork
