import Mathlib.Data.List.DropRight

/-!
# The default e-mail body

`to_html` renders a plain-text body: blank lines separate paragraphs, a single newline is a line break, and the five
characters that could change the structure of the document are escaped.
-/

namespace BymaxAuth.Email

open List

/-! ### The code -/

/-- `escape_html`, of one character. -/
def escapeChar (ch : Char) : List Char :=
  match ch with
  | '&' => "&amp;".toList
  | '<' => "&lt;".toList
  | '>' => "&gt;".toList
  | '\x22' => "&quot;".toList
  | '\x27' => "&#39;".toList
  | other => [other]

/-- `escape_html` -/
def escapeHtml (value : List Char) : List Char := value.flatMap escapeChar

/-- `text.split("\n\n")` -/
def splitParagraphs : List Char → List (List Char)
  | '\n' :: '\n' :: rest => [] :: splitParagraphs rest
  | ch :: rest => (splitParagraphs rest).modifyHead (ch :: ·)
  | [] => [[]]

/-- `<p>` -/
def openP : List Char := ['<', 'p', '>']

/-- `</p>` -/
def closeP : List Char := ['<', '/', 'p', '>']

/-- `<br>` -/
def br : List Char := ['<', 'b', 'r', '>']

/-- `replace('\n', "<br>")` -/
def replaceNewlines (l : List Char) : List Char := l.flatMap fun ch => if ch = '\n' then br else [ch]

/-- A paragraph of the body. -/
def render (paragraph : List Char) : List Char :=
  openP ++ (replaceNewlines (escapeHtml paragraph) ++ closeP)

/-- `to_html` -/
def toHtml (text : List Char) : List Char := ['\n'].intercalate ((splitParagraphs text).map render)

/-! ### Reading it back -/

/-- The end of a paragraph, and the beginning of the next. -/
def boundary : List Char := closeP ++ '\n' :: openP

/-- Replace every occurrence of a text, from the left; `skip` characters belong to one that was replaced. -/
def replaceFrom (pattern replacement : List Char) : ℕ → List Char → List Char
  | _, [] => []
  | skip + 1, _ :: rest => replaceFrom pattern replacement skip rest
  | 0, ch :: rest =>
    if pattern.isPrefixOf (ch :: rest) then
      replacement ++ replaceFrom pattern replacement (pattern.length - 1) rest
    else ch :: replaceFrom pattern replacement 0 rest

/-- Undo the five escapes. -/
def unescape : List Char → List Char
  | '&' :: 'a' :: 'm' :: 'p' :: ';' :: rest => '&' :: unescape rest
  | '&' :: 'l' :: 't' :: ';' :: rest => '<' :: unescape rest
  | '&' :: 'g' :: 't' :: ';' :: rest => '>' :: unescape rest
  | '&' :: 'q' :: 'u' :: 'o' :: 't' :: ';' :: rest => '\x22' :: unescape rest
  | '&' :: '#' :: '3' :: '9' :: ';' :: rest => '\x27' :: unescape rest
  | ch :: rest => ch :: unescape rest
  | [] => []

/-- Make two newlines of every boundary and one of every line break, and undo the escapes. -/
def readBack (l : List Char) : List Char :=
  unescape (replaceFrom br ['\n'] 0 (replaceFrom boundary ['\n', '\n'] 0 l))

/-- The same, without the outer tags. -/
def undo (html : List Char) : List Char := readBack ((html.drop openP.length).rdrop closeP.length)

/-! ### Marks -/

/-- What a body is made of. -/
inductive Mark where
  /-- The end of a paragraph, and the beginning of the next. -/
  | boundary
  /-- A line break. -/
  | br
  /-- An escaped character. -/
  | text (ch : Char)

/-- What is written for a mark. -/
def Mark.html : Mark → List Char
  | .boundary => Email.boundary
  | .br => Email.br
  | .text ch => escapeChar ch

/-- The marks of a text. -/
def marks : List Char → List Mark
  | '\n' :: '\n' :: rest => .boundary :: marks rest
  | ch :: rest => (if ch = '\n' then .br else .text ch) :: marks rest
  | [] => []

/-! ### Rendering -/

theorem splitParagraphs_ne_nil (text : List Char) : splitParagraphs text ≠ [] := by
  fun_induction splitParagraphs text with
  | case1 => simp
  | case2 ch rest _ ih => simpa [modifyHead_eq_nil_iff] using ih
  | case3 => simp

/-- A character is written as its mark. -/
theorem replaceNewlines_escapeHtml (ch : Char) (l : List Char) : replaceNewlines (escapeHtml (ch :: l)) =
    (if ch = '\n' then br else escapeChar ch) ++ replaceNewlines (escapeHtml l) := by
  have hch : replaceNewlines (escapeChar ch) = if ch = '\n' then br else escapeChar ch := by
    split
    · next hnewline =>
      subst hnewline
      rfl
    · next hnewline =>
      unfold escapeChar
      split <;> simp [replaceNewlines, hnewline]
  rw [← hch, escapeHtml, flatMap_cons, replaceNewlines, flatMap_append]
  rfl

theorem intercalate_append_cons (separator l m : List Char) (rest : List (List Char)) :
    separator.intercalate ((l ++ m) :: rest) = l ++ separator.intercalate (m :: rest) := by
  cases rest <;> simp [intercalate]

/-- A character is written into the first paragraph. -/
theorem toHtml_cons {ch : Char} {rest : List Char}
    (h : splitParagraphs (ch :: rest) = (splitParagraphs rest).modifyHead (ch :: ·)) : ∃ tail,
      toHtml rest = openP ++ tail ∧
      toHtml (ch :: rest) = openP ++ ((if ch = '\n' then br else escapeChar ch) ++ tail) := by
  obtain ⟨p, ps, hsplit⟩ := exists_cons_of_ne_nil (splitParagraphs_ne_nil rest)
  refine ⟨['\n'].intercalate ((replaceNewlines (escapeHtml p) ++ closeP) :: ps.map render), ?_, ?_⟩
  · rw [toHtml, hsplit, map_cons, render, intercalate_append_cons]
  · rw [toHtml, h, hsplit, modifyHead_cons, map_cons, render, replaceNewlines_escapeHtml, append_assoc,
      intercalate_append_cons, intercalate_append_cons]

/-- The body is an outer paragraph of marks. -/
theorem toHtml_eq_marks (text : List Char) :
    toHtml text = openP ++ ((marks text).flatMap Mark.html ++ closeP) := by
  fun_induction marks text with
  | case1 rest ih =>
    obtain ⟨p, ps, hsplit⟩ := exists_cons_of_ne_nil (splitParagraphs_ne_nil rest)
    have hcut : toHtml ('\n' :: '\n' :: rest) = render [] ++ '\n' :: toHtml rest := by
      rw [toHtml, splitParagraphs, toHtml, hsplit]
      simp [intercalate]
    rw [hcut, ih]
    simp [render, Mark.html, boundary, replaceNewlines, escapeHtml]
  | case2 ch rest hcut ih =>
    have hsplit : splitParagraphs (ch :: rest) = (splitParagraphs rest).modifyHead (ch :: ·) := by
      rw [splitParagraphs]
      exact hcut
    obtain ⟨tail, hrest, hcons⟩ := toHtml_cons hsplit
    rw [hcons, append_cancel_left (hrest.symm.trans ih)]
    split <;> simp [Mark.html]
  | case3 => rfl

/-! ### Reading the marks -/

section Replace

variable {pattern replacement : List Char}

theorem replaceFrom_skip (l m : List Char) :
    replaceFrom pattern replacement l.length (l ++ m) = replaceFrom pattern replacement 0 m := by
  induction l with
  | nil => rfl
  | cons _ l ih => exact ih

/-- An occurrence is replaced. -/
theorem replaceFrom_pattern (h : pattern ≠ []) (m : List Char) :
    replaceFrom pattern replacement 0 (pattern ++ m) = replacement ++ replaceFrom pattern replacement 0 m := by
  obtain ⟨ch, rest, rfl⟩ := exists_cons_of_ne_nil h
  rw [cons_append, replaceFrom, if_pos (by simp)]
  exact congrArg _ (replaceFrom_skip rest m)

/-- Where no tag begins, nothing is replaced. -/
theorem replaceFrom_append {l : List Char} (hp : pattern.head? = some '<') (h : '<' ∉ l) (m : List Char) :
    replaceFrom pattern replacement 0 (l ++ m) = l ++ replaceFrom pattern replacement 0 m := by
  obtain ⟨rest, rfl⟩ := head?_eq_some_iff.mp hp
  induction l with
  | nil => rfl
  | cons ch l ih =>
    rw [mem_cons, not_or] at h
    rw [cons_append, replaceFrom, if_neg (by simp [h.1]), ih h.2, cons_append]

end Replace

/-- No tag comes from an escaped character. -/
theorem not_mem_escapeChar (ch : Char) : '<' ∉ escapeChar ch ∧ '>' ∉ escapeChar ch := by
  unfold escapeChar
  split <;> simp_all [eq_comm]

theorem unescape_escapeChar (ch : Char) (m : List Char) : unescape (escapeChar ch ++ m) = ch :: unescape m := by
  unfold escapeChar
  split <;> simp_all [unescape]

theorem readBack_boundary (m : List Char) : readBack (boundary ++ m) = '\n' :: '\n' :: readBack m := by
  rw [readBack, replaceFrom_pattern (by simp [boundary, closeP]), replaceFrom_append rfl (by decide)]
  simp [unescape, readBack]

theorem readBack_br (m : List Char) : readBack (br ++ m) = '\n' :: readBack m := by
  -- A line break begins like a boundary, and goes on otherwise.
  have hkept : replaceFrom boundary ['\n', '\n'] 0 (br ++ m) = br ++ replaceFrom boundary ['\n', '\n'] 0 m :=
    congrArg ('<' :: ·) (replaceFrom_append (l := ['b', 'r', '>']) rfl (by decide) m)
  rw [readBack, hkept, replaceFrom_pattern (by simp [br])]
  simp [unescape, readBack]

theorem readBack_escapeChar (ch : Char) (m : List Char) : readBack (escapeChar ch ++ m) = ch :: readBack m := by
  have hlt := (not_mem_escapeChar ch).1
  rw [readBack, replaceFrom_append rfl hlt, replaceFrom_append rfl hlt, unescape_escapeChar]
  rfl

/-- The marks of a text are read back as the text. -/
theorem readBack_marks (text : List Char) : readBack ((marks text).flatMap Mark.html) = text := by
  fun_induction marks text with
  | case1 rest ih => rw [flatMap_cons, Mark.html, readBack_boundary, ih]
  | case2 ch rest _ ih =>
    rw [flatMap_cons]
    split
    · next h => rw [Mark.html, readBack_br, ih, h]
    · rw [Mark.html, readBack_escapeChar, ih]
  | case3 => rfl

/-- **The default body loses nothing and lets nothing in.** It is made of the tags of the renderer and of escaped
characters, which have no tags, and it is read back as the text. -/
theorem toHtml_lossless (text : List Char) :
    (∃ ms : List Mark, toHtml text = openP ++ (ms.flatMap Mark.html ++ closeP)) ∧
    (∀ ch, '<' ∉ escapeChar ch ∧ '>' ∉ escapeChar ch) ∧ undo (toHtml text) = text := by
  refine ⟨⟨_, toHtml_eq_marks text⟩, not_mem_escapeChar, ?_⟩
  rw [undo, toHtml_eq_marks, drop_left, rdrop_append_length, readBack_marks]

end BymaxAuth.Email
