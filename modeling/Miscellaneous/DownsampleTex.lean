import Miscellaneous.DecimalText
import Miscellaneous.PythonJson
import Mathlib.Tactic

/-!
# Scaled tex files

`downscale_tex` of `downsample.py` and `collect_magic_and_downsample.py`, over
exact numbers.  The reader takes the three delimiters for white space and the
words three at a time; the writer puts the delimiters back.  Whatever the
spacing of a file of vertices, its words are the numbers of the vertices in
order, so scaling twice is scaling once.
-/

namespace Miscellaneous.DownsampleTex

open PythonJson PythonStrings

/-- `float`, and `str` of a floating point number and of an integer. -/
structure NumberText where
  float : Str → Except Error ℚ
  strFloat : ℚ → Str
  strInt : ℤ → Str

structure Vertex where
  idx : ℤ
  x : ℚ
  y : ℚ
  deriving DecidableEq

def comma : CodePoint := ⟨44, by decide⟩

def colon : CodePoint := ⟨58, by decide⟩

def semicolon : CodePoint := ⟨59, by decide⟩

/-- `int` of a number. -/
def truncate (q : ℚ) : ℤ := q.num.tdiv q.den

/-- The numbers by threes; what is left over is not used. -/
def vertices : List ℚ → List Vertex
  | idx :: x :: y :: rest => ⟨truncate idx, x, y⟩ :: vertices rest
  | _ => []

def texWords (content : Str) : List Str :=
  split (replace (replace (replace content [comma] [space])
    [semicolon] [space]) [colon] [space])

def readTex (numbers : NumberText) (content : Str) :
    Except Error (List Vertex) := do
  let data ← (texWords (universalNewlines false content)).mapM numbers.float
  return vertices data

def Vertex.scaled (scale : ℚ) (vertex : Vertex) : Vertex :=
  ⟨vertex.idx, vertex.x * scale, vertex.y * scale⟩

def item (numbers : NumberText) (vertex : Vertex) : Str :=
  numbers.strInt vertex.idx ++ [colon] ++ numbers.strFloat vertex.x ++
    [comma] ++ numbers.strFloat vertex.y ++ [semicolon]

abbrev Files := Str → Option Str

/-- Without a source nothing is done; the target is opened after the source has
been read. -/
def downscaleTex (numbers : NumberText) (srcPath dstPath : Str) (scale : ℚ)
    (files : Files) : Except Error Files :=
  match files srcPath with
  | none => .ok files
  | some content => do
      let found ← readTex numbers content
      let line := found.flatMap fun vertex =>
        item numbers (vertex.scaled scale)
      return Function.update files dstPath (some line)

/-! ## Words of a file of vertices -/

def separates (c : CodePoint) : Bool :=
  isSpace c || c == comma || c == semicolon || c == colon

def IsToken (text : Str) : Prop :=
  text ≠ [] ∧ ∀ c ∈ text, separates c = false

/-- Printed numbers are read back, and have no white space and no delimiter in
them. -/
structure NumberText.Inverse (numbers : NumberText) : Prop where
  float_strFloat : ∀ x, numbers.float (numbers.strFloat x) = .ok x
  float_strInt : ∀ z, numbers.float (numbers.strInt z) = .ok z
  isToken_strFloat : ∀ x, IsToken (numbers.strFloat x)
  isToken_strInt : ∀ z, IsToken (numbers.strInt z)

/-- The token is a number. -/
structure Spells (numbers : NumberText) (token : Str) (value : ℚ) : Prop where
  float_eq : numbers.float token = .ok value
  isToken : IsToken token

/-- White space around the tokens of a vertex. -/
structure Gaps where
  beforeIdx : Str
  afterIdx : Str
  beforeX : Str
  afterX : Str
  beforeY : Str
  afterY : Str
  white : ∀ gap ∈ [beforeIdx, afterIdx, beforeX, afterX, beforeY, afterY],
    ∀ c ∈ gap, isSpace c = true

inductive WrittenAs (numbers : NumberText) : Str → List Vertex → Prop where
  | nil {tail : Str} (htail : ∀ c ∈ tail, isSpace c = true) :
      WrittenAs numbers tail []
  | cons {vertex : Vertex} {more : List Vertex} {idx x y rest : Str}
      (gaps : Gaps) (hidx : Spells numbers idx vertex.idx)
      (hx : Spells numbers x vertex.x) (hy : Spells numbers y vertex.y)
      (hmore : WrittenAs numbers rest more) :
      WrittenAs numbers
        (gaps.beforeIdx ++ (idx ++ (gaps.afterIdx ++ colon ::
          (gaps.beforeX ++ (x ++ (gaps.afterX ++ comma ::
            (gaps.beforeY ++ (y ++ (gaps.afterY ++ semicolon :: rest)))))))))
        (vertex :: more)

theorem separates_of_isSpace {c : CodePoint} (hc : isSpace c = true) :
    separates c = true := by
  simp [separates, hc]

/-- The three replacements together. -/
def blank (c : CodePoint) : CodePoint :=
  if c = comma ∨ c = semicolon ∨ c = colon then space else c

theorem isSpace_blank (c : CodePoint) : isSpace (blank c) = separates c := by
  have hspace : isSpace space = true := by decide
  unfold blank separates
  split_ifs with hc
  · rcases hc with hc | hc | hc <;> simp [hc, hspace]
  · rw [not_or, not_or] at hc
    rw [beq_false_of_ne hc.1, beq_false_of_ne hc.2.1, beq_false_of_ne hc.2.2,
      Bool.or_false, Bool.or_false, Bool.or_false]

theorem texWords_eq (content : Str) :
    texWords content = words separates content := by
  have hblank : replace (replace (replace content [comma] [space])
      [semicolon] [space]) [colon] [space] = content.map blank := by
    have hsemicolon : space ≠ semicolon := by decide
    have hcolon : space ≠ colon := by decide
    have hcomma : semicolon ≠ comma := by decide
    rw [replace_singleton, replace_singleton, replace_singleton, List.map_map,
      List.map_map]
    apply List.map_congr_left
    intro c _
    simp only [Function.comp_apply, blank]
    by_cases hc : c = comma
    · simp [hc, hsemicolon, hcolon]
    · by_cases hc' : c = semicolon
      · simp [hc', hcomma, hcolon]
      · simp [hc, hc']
  have hkeeps : ∀ c, isSpace (blank c) = false → blank c = c := by
    intro c hc
    unfold blank at hc ⊢
    split_ifs at hc ⊢
    · exact absurd hc (by decide)
    · rfl
  rw [texWords, hblank, split, words_map hkeeps]
  simp only [isSpace_blank]

theorem texWords_universalNewlines (content : Str) :
    texWords (universalNewlines false content) = words separates content := by
  have hreturn : separates carriageReturn = true := by decide
  have hnewline : separates newline = true := by decide
  have hwords := (words_universalNewlines hreturn hnewline content).1 []
    (by simp)
  rwa [texWords_eq]

/-- The numbers of the vertices, in order. -/
def numbersOf (vs : List Vertex) : List ℚ :=
  vs.flatMap fun vertex => [(vertex.idx : ℚ), vertex.x, vertex.y]

theorem vertices_numbersOf (vs : List Vertex) :
    vertices (numbersOf vs) = vs := by
  induction vs with
  | nil => rfl
  | cons vertex vs ih =>
      have htruncate : truncate (vertex.idx : ℚ) = vertex.idx := by
        simp [truncate]
      rw [numbersOf, List.flatMap_cons]
      change ⟨truncate _, vertex.x, vertex.y⟩ :: vertices (numbersOf vs) = _
      rw [htruncate, ih]

section Reading

variable {numbers : NumberText}

theorem words_item {idx x y : Str} (gaps : Gaps) (hidx : IsToken idx)
    (hx : IsToken x) (hy : IsToken y) (rest : Str) :
    words separates
        (gaps.beforeIdx ++ (idx ++ (gaps.afterIdx ++ colon ::
          (gaps.beforeX ++ (x ++ (gaps.afterX ++ comma ::
            (gaps.beforeY ++ (y ++ (gaps.afterY ++ semicolon :: rest))))))))) =
      idx :: x :: y :: words separates rest := by
  have hwhite : ∀ gap ∈ [gaps.beforeIdx, gaps.afterIdx, gaps.beforeX,
      gaps.afterX, gaps.beforeY, gaps.afterY],
        ∀ c ∈ gap, separates c = true :=
    fun gap hgap c hc => separates_of_isSpace (gaps.white gap hgap c hc)
  have hcolon : separates colon = true := by decide
  have hcomma : separates comma = true := by decide
  have hsemicolon : separates semicolon = true := by decide
  rw [words_append_of_forall (hwhite _ (by simp)),
    words_token hidx.1 hidx.2 (hwhite _ (by simp)) hcolon,
    words_append_of_forall (hwhite _ (by simp)),
    words_token hx.1 hx.2 (hwhite _ (by simp)) hcomma,
    words_append_of_forall (hwhite _ (by simp)),
    words_token hy.1 hy.2 (hwhite _ (by simp)) hsemicolon]

theorem WrittenAs.mapM_float {content : Str} {vs : List Vertex}
    (hcontent : WrittenAs numbers content vs) :
    (words separates content).mapM numbers.float = .ok (numbersOf vs) := by
  induction hcontent with
  | nil htail =>
      have hwords := words_append_of_forall
        (fun c hc => separates_of_isSpace (htail c hc)) ([] : Str)
      rw [List.append_nil] at hwords
      rw [hwords]
      rfl
  | @cons vertex more idx x y rest gaps hidx hx hy _ ih =>
      rw [words_item gaps hidx.isToken hx.isToken hy.isToken, mapM_eq_ok_iff,
        numbersOf, List.flatMap_cons]
      rw [mapM_eq_ok_iff] at ih
      exact .cons hidx.float_eq (.cons hx.float_eq (.cons hy.float_eq ih))

/-- A file of vertices is read as these vertices. -/
theorem WrittenAs.readTex_eq {content : Str} {vs : List Vertex}
    (hcontent : WrittenAs numbers content vs) :
    readTex numbers content = .ok vs := by
  rw [readTex, texWords_universalNewlines, hcontent.mapM_float]
  change Except.ok (vertices (numbersOf vs)) = _
  rw [vertices_numbersOf]

def noGaps : Gaps := ⟨[], [], [], [], [], [], by simp⟩

theorem NumberText.Inverse.writtenAs_items (hnumbers : numbers.Inverse)
    (vs : List Vertex) : WrittenAs numbers (vs.flatMap (item numbers)) vs := by
  induction vs with
  | nil => exact .nil (by simp)
  | cons vertex vs ih =>
      have hitem : (vertex :: vs).flatMap (item numbers) =
          noGaps.beforeIdx ++ (numbers.strInt vertex.idx ++
            (noGaps.afterIdx ++ colon :: (noGaps.beforeX ++
              (numbers.strFloat vertex.x ++ (noGaps.afterX ++ comma ::
                (noGaps.beforeY ++ (numbers.strFloat vertex.y ++
                  (noGaps.afterY ++ semicolon ::
                    vs.flatMap (item numbers))))))))) := by
        simp [item, noGaps]
      rw [hitem]
      exact .cons noGaps
        ⟨hnumbers.float_strInt _, hnumbers.isToken_strInt _⟩
        ⟨hnumbers.float_strFloat _, hnumbers.isToken_strFloat _⟩
        ⟨hnumbers.float_strFloat _, hnumbers.isToken_strFloat _⟩ ih

theorem downscaleTex_of_readTex {files : Files} {srcPath : Str} {content : Str}
    {vs : List Vertex} (hfile : files srcPath = some content)
    (hread : readTex numbers content = .ok vs) (dstPath : Str) (scale : ℚ) :
    downscaleTex numbers srcPath dstPath scale files =
      .ok (Function.update files dstPath
        (some ((vs.map (Vertex.scaled scale)).flatMap (item numbers)))) := by
  rw [downscaleTex, hfile, List.flatMap_map]
  change (readTex numbers content >>= _) = _
  rw [hread]
  rfl

theorem scaled_scaled (s t : ℚ) (vertex : Vertex) :
    (vertex.scaled s).scaled t = vertex.scaled (s * t) := by
  simp [Vertex.scaled, mul_assoc]

theorem scaled_one (vertex : Vertex) : vertex.scaled 1 = vertex := by
  simp [Vertex.scaled]

/-- The written file has the same vertices scaled; scaling it again gives what
scaling once by the product gives, and by one what was there. -/
theorem downscaleTex_scales (hnumbers : numbers.Inverse) {content : Str}
    {vs : List Vertex} (hcontent : WrittenAs numbers content vs)
    {files : Files} {srcPath : Str} (hfile : files srcPath = some content)
    (dstPath : Str) (s : ℚ) :
    ∃ written,
      downscaleTex numbers srcPath dstPath s files =
          .ok (Function.update files dstPath (some written)) ∧
        readTex numbers written = .ok (vs.map (Vertex.scaled s)) ∧
        (∀ (outPath : Str) (t : ℚ), ∃ twice,
          downscaleTex numbers dstPath outPath t
              (Function.update files dstPath (some written)) =
            .ok (Function.update (Function.update files dstPath (some written))
              outPath (some twice)) ∧
          downscaleTex numbers srcPath outPath (s * t) files =
            .ok (Function.update files outPath (some twice))) ∧
        ∀ outPath : Str,
          downscaleTex numbers dstPath outPath 1
              (Function.update files dstPath (some written)) =
            .ok (Function.update (Function.update files dstPath (some written))
              outPath (some written)) := by
  have hread : readTex numbers
      ((vs.map (Vertex.scaled s)).flatMap (item numbers)) =
        .ok (vs.map (Vertex.scaled s)) :=
    (hnumbers.writtenAs_items _).readTex_eq
  have hstored (text : Str) :
      Function.update files dstPath (some text) dstPath = some text :=
    Function.update_self _ _ _
  refine ⟨_, downscaleTex_of_readTex hfile hcontent.readTex_eq dstPath s, hread,
    ?_, ?_⟩
  · intro outPath t
    refine ⟨_, downscaleTex_of_readTex (hstored _) hread outPath t, ?_⟩
    rw [downscaleTex_of_readTex hfile hcontent.readTex_eq, List.map_map]
    simp only [Function.comp_def, scaled_scaled]
  · intro outPath
    rw [downscaleTex_of_readTex (hstored _) hread, List.map_map]
    simp only [Function.comp_def, scaled_one]

end Reading

/-! ## Decimal numbers -/

/-- The code points of a text of digits and signs. -/
def ofText (text : TextStreams.Text) : Str := str (String.ofList text)

theorem ofText_eq (text : TextStreams.Text) :
    ofText text = text.map fun c => Fin.ofNat 0x110000 c.toNat := by
  rw [ofText, str, String.toList_ofList]

def toText (text : Str) : TextStreams.Text := text.map fun c => Char.ofNat c.val

/-- Whole numbers have one zero behind the point, as a float has; other
numbers are printed as a quotient. -/
def decimalNumbers : NumberText where
  float text :=
    match DecimalText.scanInteger (toText text) with
    | (some n, []) | (some n, ['.', '0']) => .ok n
    | (some n, '/' :: rest) =>
        match DecimalText.scanDigits rest with
        | (some d, []) => .ok (n / d)
        | _ => .error .valueError
    | _ => .error .valueError
  strFloat q :=
    ofText (DecimalText.printInteger q.num ++
      if q.den = 1 then ['.', '0'] else '/' :: Nat.toDigits 10 q.den)
  strInt z := ofText (DecimalText.printInteger z)

theorem toText_ofText (text : TextStreams.Text) :
    toText (ofText text) = text := by
  rw [toText, ofText_eq, List.map_map]
  have hchar : ∀ c ∈ text,
      ((fun c : CodePoint => Char.ofNat c.val) ∘
        fun c : Char => Fin.ofNat 0x110000 c.toNat) c = c := by
    intro c _
    have hlt : c.toNat < 0x110000 := by
      have hvalid : c.toNat < 0xd800 ∨ (0xdfff < c.toNat ∧ c.toNat < 0x110000) :=
        c.valid
      omega
    simp [Fin.ofNat, Nat.mod_eq_of_lt hlt]
  rw [List.map_congr_left hchar, List.map_id']

theorem decimalNumbers_float_strFloat (q : ℚ) :
    decimalNumbers.float (decimalNumbers.strFloat q) = .ok q := by
  simp only [decimalNumbers, toText_ofText]
  split_ifs with hden
  · rw [DecimalText.scanInteger_printInteger q.num (by simp)]
    have hq : (q.num : ℚ) = q := Rat.coe_int_num_of_den_eq_one hden
    simp [hq]
  · rw [DecimalText.scanInteger_printInteger q.num (by simp)]
    have hdigits := @DecimalText.scanDigits_toDigits q.den [] (by simp)
    rw [List.append_nil] at hdigits
    simp [hdigits, Rat.num_div_den]

theorem decimalNumbers_float_strInt (z : ℤ) :
    decimalNumbers.float (decimalNumbers.strInt z) = .ok z := by
  have hscan := @DecimalText.scanInteger_printInteger z [] (by simp)
  rw [List.append_nil] at hscan
  simp only [decimalNumbers, toText_ofText, hscan]

def IsPlain (c : Char) : Prop :=
  c.isDigit = true ∨ c = '-' ∨ c = '.' ∨ c = '/'

theorem separates_of_isPlain {c : Char} (hc : IsPlain c) :
    separates (Fin.ofNat 0x110000 c.toNat) = false := by
  rcases hc with hdigit | rfl | rfl | rfl
  · have hbounds : 48 ≤ c.toNat ∧ c.toNat ≤ 57 := by
      simpa [Char.isDigit, UInt32.le_iff_toNat_le] using hdigit
    rcases hbounds with ⟨hlow, hhigh⟩
    interval_cases c.toNat <;> decide
  · decide
  · decide
  · decide

theorem isToken_ofText {text : TextStreams.Text} (hne : text ≠ [])
    (htext : ∀ c ∈ text, IsPlain c) : IsToken (ofText text) := by
  constructor
  · simpa [ofText_eq] using hne
  · intro d hd
    rw [ofText_eq] at hd
    rcases List.mem_map.mp hd with ⟨c, hc, hsame⟩
    rw [← hsame]
    exact separates_of_isPlain (htext c hc)

theorem isPlain_of_mem_printInteger {z : ℤ} {c : Char}
    (hc : c ∈ DecimalText.printInteger z) : IsPlain c := by
  cases z with
  | ofNat n => exact Or.inl (DecimalText.isDigit_of_mem_toDigits hc)
  | negSucc n =>
      rcases List.mem_cons.mp hc with hc | hc
      · exact Or.inr (Or.inl hc)
      · exact Or.inl (DecimalText.isDigit_of_mem_toDigits hc)

theorem printInteger_ne_nil (z : ℤ) : DecimalText.printInteger z ≠ [] := by
  cases z with
  | ofNat n => exact Nat.toDigits_ne_nil
  | negSucc n => exact List.cons_ne_nil _ _

theorem decimalNumbers_inverse : decimalNumbers.Inverse := by
  constructor
  · exact decimalNumbers_float_strFloat
  · exact decimalNumbers_float_strInt
  · intro x
    apply isToken_ofText
    · exact List.append_ne_nil_of_left_ne_nil (printInteger_ne_nil _) _
    · intro c hc
      rcases List.mem_append.mp hc with hc | hc
      · exact isPlain_of_mem_printInteger hc
      · split_ifs at hc
        · rcases List.mem_cons.mp hc with hc | hc
          · exact Or.inr (Or.inr (Or.inl hc))
          · rw [List.mem_singleton.mp hc]
            exact Or.inl rfl
        · rcases List.mem_cons.mp hc with hc | hc
          · exact Or.inr (Or.inr (Or.inr hc))
          · exact Or.inl (DecimalText.isDigit_of_mem_toDigits hc)
  · intro z
    exact isToken_ofText (printInteger_ne_nil z) fun c hc =>
      isPlain_of_mem_printInteger hc

def blankGaps : Gaps :=
  ⟨[], [], [space], [], [space], [], by simp [show isSpace space = true by decide]⟩

theorem spells_of_decide {token : Str} {value : ℚ}
    (hfloat : decimalNumbers.float token = .ok value) (hne : token ≠ [])
    (htoken : (token.all fun c => !separates c) = true) :
    Spells decimalNumbers token value := by
  refine ⟨hfloat, hne, ?_⟩
  simpa using htoken

theorem writtenAs_blank :
    WrittenAs decimalNumbers (str "3: 1.0, 2.0;\n") [⟨3, 1, 2⟩] := by
  have htail : ∀ c ∈ str "\n", isSpace c = true := by
    have hnewline : str "\n" = [newline] := rfl
    rw [hnewline]
    intro c hc
    rw [List.mem_singleton.mp hc]
    decide
  have hitem := @WrittenAs.cons decimalNumbers ⟨3, 1, 2⟩ [] (str "3")
    (str "1.0") (str "2.0") (str "\n") blankGaps
    (spells_of_decide rfl (by decide) (by decide))
    (spells_of_decide rfl (by decide) (by decide))
    (spells_of_decide rfl (by decide) (by decide)) (.nil htail)
  exact hitem

theorem downscaleTex_scales_blank :
    ∃ written,
      downscaleTex decimalNumbers (str "a.tex") (str "b.tex") 2
          (fun _ => some (str "3: 1.0, 2.0;\n")) =
        .ok (Function.update (fun _ => some (str "3: 1.0, 2.0;\n"))
          (str "b.tex") (some written)) ∧
      readTex decimalNumbers written = .ok [⟨3, 2, 4⟩] := by
  rcases @downscaleTex_scales decimalNumbers decimalNumbers_inverse _ _
    writtenAs_blank (fun _ => some (str "3: 1.0, 2.0;\n")) (str "a.tex") rfl
    (str "b.tex") 2 with ⟨written, hwritten, hread, _⟩
  refine ⟨written, hwritten, ?_⟩
  rw [hread]
  norm_num [Vertex.scaled]

end Miscellaneous.DownsampleTex
