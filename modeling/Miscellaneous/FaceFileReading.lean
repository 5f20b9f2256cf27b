import Miscellaneous.FaceFile
import Mathlib.Tactic

/-!
# What a face line is

The format asks for three corners of three numerals with slashes between them.
A text from which all nine values are read is such a face, and every spelling
of a face is read back, with `%hu` as with `%hd`.

The two conversions store the same bits for every number that is a `long`, so
`main` finds the arrays the same unless the first number is missing.
-/

namespace Miscellaneous.FaceFile

open TextStreams ScanFormats

/-! ## The format -/

section Format

variable {α : Type*} (convert : ℤ → α)

def cornerFormat : List (Directive α) :=
  [.number convert, .char '/', .number convert, .char '/', .number convert]

def faceFormat : List (Directive α) :=
  cornerFormat convert ++ .blank :: (cornerFormat convert ++ .blank ::
    (cornerFormat convert ++ [.blank]))

end Format

theorem directives_format (flagUnsigned : Bool) :
    directives (format flagUnsigned).toList =
      some (faceFormat (convert flagUnsigned)) := by
  cases flagUnsigned
  · rfl
  · rfl

theorem scanFace_eq (flagUnsigned : Bool) (text : Text) :
    scanFace flagUnsigned text =
      (scan (faceFormat (convert flagUnsigned)) text).items := by
  rw [scanFace, directives_format]

/-! ## Faces -/

/-- A numeral with white space in front of it. -/
structure Entry where
  blanks : Text
  numeral : Numeral
  isSpace : ∀ c ∈ blanks, isSpace c = true

def Entry.text (entry : Entry) : Text := entry.blanks ++ entry.numeral.text

/-- The entry cannot be taken for the end of a numeral before it. -/
def Entry.Apart (entry : Entry) : Prop :=
  entry.blanks ≠ [] ∨ entry.numeral.sign ≠ .none

structure Corner where
  first : Entry
  second : Entry
  third : Entry

def Corner.text (corner : Corner) : Text :=
  corner.first.text ++ '/' :: (corner.second.text ++ '/' :: corner.third.text)

def Corner.values (corner : Corner) : List ℤ :=
  [corner.first.numeral.value, corner.second.numeral.value,
    corner.third.numeral.value]

structure Face where
  first : Corner
  second : Corner
  third : Corner
  second_apart : second.first.Apart
  third_apart : third.first.Apart

def Face.text (face : Face) : Text :=
  face.first.text ++ (face.second.text ++ face.third.text)

def Face.values (face : Face) : List ℤ :=
  face.first.values ++ (face.second.values ++ face.third.values)

theorem Face.length_values (face : Face) : face.values.length = 9 := rfl

theorem Entry.stops_iff (entry : Entry) (rest : Text) :
    Stops (entry.text ++ rest) ↔ entry.Apart := by
  rcases entry with ⟨blanks, ⟨sign, digits, hne, hall⟩, hblanks⟩
  cases blanks with
  | cons c blanks =>
      refine iff_of_true ?_ (Or.inl (List.cons_ne_nil c blanks))
      intro d hd
      obtain rfl : c = d := by simpa [Entry.text] using hd
      by_contra hdigit
      rw [Bool.not_eq_false] at hdigit
      have hspace := hblanks c (by simp)
      rw [DecimalText.isSpace_of_isDigit hdigit] at hspace
      contradiction
  | nil =>
      cases sign with
      | plus =>
          refine iff_of_true ?_ (Or.inr (by simp))
          intro d hd
          obtain rfl : '+' = d := by
            simpa [Entry.text, Numeral.text, Sign.text] using hd
          rfl
      | minus =>
          refine iff_of_true ?_ (Or.inr (by simp))
          intro d hd
          obtain rfl : '-' = d := by
            simpa [Entry.text, Numeral.text, Sign.text] using hd
          rfl
      | none =>
          obtain ⟨d, digits, rfl⟩ := List.exists_cons_of_ne_nil hne
          refine iff_of_false ?_ (by simp [Entry.Apart])
          intro hstops
          have hd := hstops d (by simp [Entry.text, Numeral.text, Sign.text])
          rw [hall d (by simp)] at hd
          cases hd

theorem stops_slash (text : Text) : Stops ('/' :: text) := by
  intro c hc
  obtain rfl : '/' = c := by simpa using hc
  rfl

section Spelling

variable {α : Type*} {convert : ℤ → α} {format : List (Directive α)}
  {text rest : Text} {items : List α}

theorem spelled_number_iff :
    Spelled (.number convert :: format) text items rest ↔
      ∃ (entry : Entry) (behind : Text) (more : List α),
        text = entry.text ++ behind ∧ Stops behind ∧
          items = convert entry.numeral.value :: more ∧
          Spelled format behind more rest := by
  constructor
  · intro hspelled
    cases hspelled with
    | number numeral hblanks hstops hmore =>
        exact ⟨⟨_, numeral, hblanks⟩, _, _, (List.append_assoc _ _ _).symm,
          hstops, rfl, hmore⟩
  · rintro ⟨entry, behind, more, rfl, hstops, rfl, hmore⟩
    rw [Entry.text, List.append_assoc]
    exact .number entry.numeral entry.isSpace hstops hmore

theorem spelled_char_iff {c : Char} :
    Spelled (.char c :: format) text items rest ↔
      ∃ behind, text = c :: behind ∧ Spelled format behind items rest := by
  constructor
  · intro hspelled
    cases hspelled with
    | char hmore => exact ⟨_, rfl, hmore⟩
  · rintro ⟨behind, rfl, hmore⟩
    exact .char hmore

theorem spelled_corner_iff :
    Spelled (cornerFormat convert ++ format) text items rest ↔
      ∃ (corner : Corner) (behind : Text) (more : List α),
        text = corner.text ++ behind ∧ Stops behind ∧
          items = corner.values.map convert ++ more ∧
          Spelled format behind more rest := by
  simp only [cornerFormat, List.cons_append, List.nil_append,
    spelled_number_iff, spelled_char_iff]
  constructor
  · rintro ⟨first, _, _, rfl, _, rfl, _, rfl, second, _, _, rfl, _, rfl, _, rfl,
      third, behind, more, rfl, hstops, rfl, hmore⟩
    exact ⟨⟨first, second, third⟩, behind, more, by simp [Corner.text], hstops,
      rfl, hmore⟩
  · rintro ⟨⟨first, second, third⟩, behind, more, rfl, hstops, rfl, hmore⟩
    exact ⟨first, _, _, by simp [Corner.text], stops_slash _, rfl, _, rfl,
      second, _, _, rfl, stops_slash _, rfl, _, rfl,
      third, behind, more, rfl, hstops, rfl, hmore⟩

end Spelling

/-- The blanks between the corners are skipped by the conversions. -/
theorem scan_faceFormat {α : Type*} (convert : ℤ → α) (text : Text) :
    scan (faceFormat convert) text =
      scan (cornerFormat convert ++ (cornerFormat convert ++
        (cornerFormat convert ++ [.blank]))) text := by
  have hblank : ∀ format text,
      scan (.blank :: (cornerFormat convert ++ format)) text =
        scan (cornerFormat convert ++ format) text :=
    fun _ text => scan_blank_number convert _ text
  unfold faceFormat
  refine scan_append_congr (fun behind => ?_) _ text
  rw [hblank]
  exact scan_append_congr (hblank _) _ behind

theorem spelled_blank_iff {α : Type*} {text rest : Text} {items : List α} :
    Spelled [.blank] text items rest ↔
      items = [] ∧ rest = text.dropWhile isSpace := by
  rw [← scan_eq_done_iff]
  simp [scan, eq_comm]

theorem scan_face (face : Face) {tail : Text} (htail : Stops tail)
    {α : Type*} (convert : ℤ → α) :
    scan (faceFormat convert) (face.text ++ tail) =
      ⟨face.values.map convert, .done, tail.dropWhile isSpace⟩ := by
  rw [scan_faceFormat, scan_eq_done_iff]
  have hthird : Spelled (cornerFormat convert ++ [.blank])
      (face.third.text ++ tail) (face.third.values.map convert)
      (tail.dropWhile isSpace) :=
    spelled_corner_iff.mpr ⟨face.third, tail, [], rfl, htail, by simp,
      spelled_blank_iff.mpr ⟨rfl, rfl⟩⟩
  have hcorner : ∀ (corner : Corner) behind,
      Stops (corner.text ++ behind) ↔ corner.first.Apart := by
    intro corner behind
    rw [Corner.text, List.append_assoc]
    exact corner.first.stops_iff _
  have hsecond : Spelled (cornerFormat convert ++
      (cornerFormat convert ++ [.blank]))
      (face.second.text ++ (face.third.text ++ tail))
      ((face.second.values ++ face.third.values).map convert)
      (tail.dropWhile isSpace) :=
    spelled_corner_iff.mpr ⟨face.second, _, _, rfl,
      (hcorner _ _).mpr face.third_apart, by simp, hthird⟩
  exact spelled_corner_iff.mpr ⟨face.first, _, _,
    by simp [Face.text], (hcorner _ _).mpr face.second_apart,
    by simp [Face.values], hsecond⟩

theorem exists_face {α : Type*} {convert : ℤ → α} {text : Text}
    (hlength : (scan (faceFormat convert) text).items.length = 9) :
    ∃ (face : Face) (tail : Text), Stops tail ∧ text = face.text ++ tail := by
  have hends : EndsWithConversion (faceFormat convert) := by
    simp [faceFormat, cornerFormat, EndsWithConversion, conversions]
  have hdone : (scan (faceFormat convert) text).ending = .done :=
    done_of_length_items hends hlength
  rcases hscan : scan (faceFormat convert) text with ⟨items, ending, rest⟩
  rw [hscan] at hdone
  obtain rfl : ending = .done := hdone
  rw [scan_faceFormat, scan_eq_done_iff] at hscan
  rcases spelled_corner_iff.mp hscan with
    ⟨first, _, _, rfl, hsecond, _, hscan⟩
  rcases spelled_corner_iff.mp hscan with
    ⟨second, _, _, rfl, hthird, _, hscan⟩
  rcases spelled_corner_iff.mp hscan with ⟨third, tail, _, rfl, htail, _, _⟩
  rw [Corner.text, List.append_assoc, Entry.stops_iff] at hsecond hthird
  exact ⟨⟨first, second, third, hsecond, hthird⟩, tail, htail,
    by simp [Face.text]⟩

/-- The second `fscanf` reads nine values exactly from the texts that begin
with a face, and then these are the numbers of the face. -/
theorem scanFace_nine_iff (flagUnsigned : Bool) (text : Text)
    (values : List (BitVec 16)) :
    scanFace flagUnsigned text = values ∧ values.length = 9 ↔
      ∃ (face : Face) (tail : Text), Stops tail ∧ text = face.text ++ tail ∧
        values = face.values.map (convert flagUnsigned) := by
  rw [scanFace_eq]
  constructor
  · rintro ⟨rfl, hlength⟩
    rcases exists_face hlength with ⟨face, tail, htail, rfl⟩
    exact ⟨face, tail, htail, rfl, by rw [scan_face face htail]⟩
  · rintro ⟨face, tail, htail, rfl, rfl⟩
    rw [scan_face face htail]
    exact ⟨rfl, by rw [List.length_map, face.length_values]⟩

/-! ## What the conversions store -/

/-- The conversions agree on every `long`, and on few other numbers. -/
def SameBits (z : ℤ) : Prop :=
  -2 ^ 63 ≤ z ∧ z < 2 ^ 63 ∨
    2 ^ 63 ≤ z ∧ (2 ^ 64 ≤ z ∨ z % 2 ^ 16 = 2 ^ 16 - 1) ∨
    -2 ^ 64 < z ∧ z < -2 ^ 63 ∧ z % 2 ^ 16 = 0

theorem short_eq_unsignedShort_iff (z : ℤ) :
    short z = unsignedShort z ↔ SameBits z := by
  have hbits : ∀ a b : ℤ, BitVec.ofInt 16 a = BitVec.ofInt 16 b ↔
      a % 2 ^ 16 = b % 2 ^ 16 := by
    intro a b
    rw [← BitVec.toNat_inj, BitVec.toNat_ofInt, BitVec.toNat_ofInt]
    omega
  unfold short unsignedShort SameBits
  rw [hbits]
  unfold strtol strtoul
  split_ifs with hlarge <;> omega

theorem convert_small {v : ℤ} (hnonneg : 0 ≤ v) (hlt : v < 2 ^ 16)
    (flagUnsigned : Bool) : ((convert flagUnsigned v).toNat : ℤ) = v := by
  have hsame : short v = unsignedShort v :=
    (short_eq_unsignedShort_iff v).mpr (Or.inl (by omega))
  have hvalue : ((short v).toNat : ℤ) = v := by
    unfold short strtol
    rw [BitVec.toNat_ofInt]
    omega
  cases flagUnsigned
  · exact hvalue
  · rw [hsame] at hvalue
    exact hvalue

/-! ## Reading a file -/

theorem scanWord_word {lead word rest : Text}
    (hlead : ∀ c ∈ lead, isSpace c = true) (hword : word ≠ [])
    (hsolid : ∀ c ∈ word, isSpace c = false)
    (hrest : ∀ c ∈ rest.head?, isSpace c = true) :
    scanWord (lead ++ (word ++ rest)) = some (word, rest) := by
  have hstart : Solid (word ++ rest) := by
    obtain ⟨c, word, rfl⟩ := List.exists_cons_of_ne_nil hword
    intro d hd
    obtain rfl : c = d := by simpa using hd
    exact hsolid c (by simp)
  have hne : word ++ rest ≠ [] := by simp [hword]
  rcases maximal_run (p := (!isSpace ·)) (by simpa using hsolid)
    (by simpa using hrest) with ⟨htake, hdrop⟩
  simp only [scanWord, dropWhile_blanks hlead hstart, if_neg hne, htake, hdrop]

/-- However a face is spelled, with white space before its numerals, signs and
leading zeros: if its numbers fit into an `unsigned short`, the array has them
after the read, whichever conversion is used. -/
theorem readFromFile_face (face : Face) {lead tail : Text}
    (hlead : ∀ c ∈ lead, isSpace c = true) (htail : Stops tail)
    (hheader : face.first.first.blanks ≠ [])
    (hshort : ∀ v ∈ face.values, 0 ≤ v ∧ v < 2 ^ 16)
    {data : List (BitVec 16)} (hdata : data.length = 9) (flagUnsigned : Bool) :
    ∃ read, readFromFile (some (lead ++ ('f' :: (face.text ++ tail)))) data
        flagUnsigned = .returns true read ∧
      read.map (fun x => (x.toNat : ℤ)) = face.values := by
  have hword : scanWord (lead ++ ('f' :: (face.text ++ tail))) =
      some (['f'], face.text ++ tail) := by
    obtain ⟨b, blanks, hblanks⟩ := List.exists_cons_of_ne_nil hheader
    have hrest : ∀ c ∈ (face.text ++ tail).head?, isSpace c = true := by
      intro c hc
      have hb : c = b := by
        simpa [Face.text, Corner.text, Entry.text, hblanks, eq_comm] using hc
      exact face.first.first.isSpace c (by simp [hblanks, hb])
    exact scanWord_word hlead (List.cons_ne_nil 'f' [])
      (by simp [isSpace]) hrest
  have hstored : store (scanFace flagUnsigned (face.text ++ tail)) data =
      face.values.map (convert flagUnsigned) := by
    rw [scanFace_eq, scan_face face htail, store, List.length_map,
      face.length_values, ← hdata, List.drop_length, List.append_nil]
  refine ⟨face.values.map (convert flagUnsigned), ?_, ?_⟩
  · simp only [readFromFile, hword]
    rw [hstored]
    rfl
  · rw [List.map_map]
    calc
      face.values.map (fun v => ((convert flagUnsigned v).toNat : ℤ)) =
          face.values.map id :=
        List.map_congr_left fun v hv =>
          convert_small (hshort v hv).1 (hshort v hv).2 flagUnsigned
      _ = face.values := List.map_id _

theorem readFromFile_face_sevens :
    ∃ face : Face, face.values = List.replicate 9 7 ∧
      ∃ read, readFromFile (some ([] ++ ('f' :: (face.text ++ []))))
          (List.replicate 9 0) false = .returns true read ∧
        read.map (fun x => (x.toNat : ℤ)) = face.values := by
  let seven : Entry :=
    ⟨[' '], ⟨.plus, ['0', '7'], by simp, by simp [Char.isDigit]⟩,
      by simp [isSpace]⟩
  let corner : Corner := ⟨seven, seven, seven⟩
  let face : Face := ⟨corner, corner, corner, .inl (by simp [corner, seven]),
    .inl (by simp [corner, seven])⟩
  have hvalues : face.values = List.replicate 9 7 := rfl
  exact ⟨face, hvalues, readFromFile_face face (by simp) (by simp [Stops])
    (List.cons_ne_nil _ _) (by simp [hvalues]) rfl false⟩

/-! ## The two reads of `main` -/

/-- The numbers behind the header, whatever they are stored as. -/
def faceNumbers (file : Option Text) : List ℤ :=
  match file.bind scanWord with
  | some (lineHeader, rest) =>
      if cText lineHeader = ['f'] then (scan (faceFormat id) rest).items else []
  | none => []

theorem scanFace_numbers (flagUnsigned : Bool) (text : Text) :
    scanFace flagUnsigned text =
      (scan (faceFormat id) text).items.map (convert flagUnsigned) := by
  have hformat : faceFormat (convert flagUnsigned) =
      (faceFormat id).map (Directive.map (convert flagUnsigned)) := rfl
  rw [scanFace_eq, hformat, scan_map]
  rfl

/-- The first word of the file does not fit into `line_header`. -/
def LongHeader (file : Option Text) : Prop :=
  ∃ lineHeader rest, file.bind scanWord = some (lineHeader, rest) ∧
    lineHeaderSize ≤ lineHeader.length

/-- The data after a read of a file whose header fits. -/
theorem readFromFile_data {file : Option Text} (hheader : ¬LongHeader file)
    (data : List (BitVec 16)) (flagUnsigned : Bool) :
    ∃ result, readFromFile file data flagUnsigned =
      .returns result
        (store ((faceNumbers file).map (convert flagUnsigned)) data) := by
  cases file with
  | none => exact ⟨false, rfl⟩
  | some text =>
      rcases hword : scanWord text with _ | ⟨lineHeader, rest⟩
      · refine ⟨false, ?_⟩
        simp [readFromFile, faceNumbers, hword, store]
      · have hfits : ¬lineHeader.length ≥ lineHeaderSize :=
          fun hlong => hheader ⟨lineHeader, rest, hword, hlong⟩
        refine ⟨true, ?_⟩
        simp only [readFromFile, faceNumbers, Option.bind_some, hword,
          if_neg hfits]
        split_ifs
        · rw [scanFace_numbers]
        · rfl

theorem readFromFile_overrun_iff (file : Option Text)
    (data : List (BitVec 16)) (flagUnsigned : Bool) :
    readFromFile file data flagUnsigned = .overrun ↔ LongHeader file := by
  constructor
  · intro hoverrun
    by_contra hheader
    rcases readFromFile_data hheader data flagUnsigned with ⟨result, hread⟩
    rw [hread] at hoverrun
    cases hoverrun
  · rintro ⟨lineHeader, rest, hword, hlong⟩
    rcases Option.bind_eq_some_iff.mp hword with ⟨text, rfl, hscan⟩
    simp only [readFromFile, hscan]
    exact if_pos hlong

/-- With different first elements the arrays are the same only after a first
number has been stored. -/
theorem store_eq_store_iff {first second : List (BitVec 16)}
    (hlength : first.length = second.length) :
    store first (List.replicate 9 0) = store second (1 :: List.replicate 8 0) ↔
      first ≠ [] ∧ first = second := by
  unfold store
  rw [hlength]
  cases second with
  | nil =>
      obtain rfl : first = [] := List.length_eq_zero_iff.mp hlength
      simp
  | cons x second =>
      have hne : first ≠ [] := by
        rintro rfl
        simp at hlength
      have htail : List.drop (x :: second).length
          (List.replicate 9 (0 : BitVec 16)) =
          List.drop (x :: second).length (1 :: List.replicate 8 0) := by
        have hcount : 9 - (second.length + 1) = 8 - second.length := by omega
        rw [List.length_cons, List.drop_succ_cons, List.drop_replicate,
          List.drop_replicate, hcount]
      rw [htail, List.append_left_inj]
      exact (and_iff_right hne).symm

/-- `main` writes over the end of `line_header` exactly when the first word of
the file is too long.  Otherwise it finds the arrays the same exactly when
there is a first number and the conversions agree on each number. -/
theorem main_same_iff (file : Option Text) :
    (main file = none ↔ LongHeader file) ∧
    ∀ report, main file = some report →
      (report.same = true ↔
        faceNumbers file ≠ [] ∧ ∀ z ∈ faceNumbers file, SameBits z) := by
  by_cases hheader : LongHeader file
  · have hmain : main file = none := by
      simp only [main, (readFromFile_overrun_iff file _ true).mpr hheader]
    exact ⟨iff_of_true hmain hheader, by simp [hmain]⟩
  · rcases readFromFile_data hheader (List.replicate 9 0) true with
      ⟨result1, hfirst⟩
    rcases readFromFile_data hheader (1 :: List.replicate 8 0) false with
      ⟨result2, hsecond⟩
    have hmain : ∃ report, main file = some report ∧
        report.same =
          (store ((faceNumbers file).map (convert true)) (List.replicate 9 0) ==
            store ((faceNumbers file).map (convert false))
              (1 :: List.replicate 8 0)) := by
      simp only [main, hfirst, hsecond]
      exact ⟨_, rfl, rfl⟩
    rcases hmain with ⟨report, hreport, hsame⟩
    refine ⟨iff_of_false (by rw [hreport]; simp) hheader, ?_⟩
    intro other hother
    obtain rfl : report = other := Option.some.inj (hreport.symm.trans hother)
    rw [hsame]
    rw [beq_iff_eq, store_eq_store_iff (by simp), List.map_eq_map_iff]
    refine and_congr (by simp) (forall₂_congr fun z _ => ?_)
    rw [← short_eq_unsignedShort_iff]
    exact eq_comm

theorem main_same_iff_large :
    (main (some "f 40000/9223372036854775808/7".toList) = none ↔
      LongHeader (some "f 40000/9223372036854775808/7".toList)) ∧
    ∃ report, main (some "f 40000/9223372036854775808/7".toList) =
        some report ∧
      (report.same = true ↔
        faceNumbers (some "f 40000/9223372036854775808/7".toList) ≠ [] ∧
          ∀ z ∈ faceNumbers (some "f 40000/9223372036854775808/7".toList),
            SameBits z) :=
  ⟨(main_same_iff _).1,
    ⟨some [40000, 0, 7, 0, 0, 0, 0, 0, 0],
      some [40000, 65535, 7, 0, 0, 0, 0, 0, 0], false⟩,
    by decide +kernel, (main_same_iff _).2 _ (by decide +kernel)⟩

end Miscellaneous.FaceFile
