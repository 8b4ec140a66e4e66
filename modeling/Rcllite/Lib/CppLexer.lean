import Mathlib.Tactic.Common

/-! Texts put together from literal parts and words, as a template is filled in, and the tokens that C++ reads
in them. The tokens of a filled template are those of its parts, so they can be computed while the words are
still unknown. -/
namespace Cpp

/-- The keywords that the grammar of the fragment uses. -/
inductive Keyword where
  | kStaticCast
  | kSizeof
  | kTrue
  | kFalse
  | kVoid
  | kConst
  | kAuto
  | kIf
  | kFor
  | kReturn
  | kStatic
  | kStruct
  | kUsing
  | kNamespace
  | kTemplate
deriving DecidableEq, Repr

def keywords : List (List Char × Keyword) :=
  [("static_cast".toList, .kStaticCast), ("sizeof".toList, .kSizeof), ("true".toList, .kTrue),
   ("false".toList, .kFalse), ("void".toList, .kVoid), ("const".toList, .kConst), ("auto".toList, .kAuto),
   ("if".toList, .kIf), ("for".toList, .kFor), ("return".toList, .kReturn), ("static".toList, .kStatic),
   ("struct".toList, .kStruct), ("using".toList, .kUsing), ("namespace".toList, .kNamespace),
   ("template".toList, .kTemplate)]

inductive Token where
  | keyword (k : Keyword)
  | word (w : List Char)
  | number (n : ℕ)
  /-- A run of word characters that is neither a word nor a decimal number. -/
  | malformed (w : List Char)
  | punct (c : Char)
  /-- `::` -/
  | scope
  /-- `++` -/
  | increment
  /-- A string literal without escapes. -/
  | quoted (s : List Char)
deriving DecidableEq, Repr

def isDigit (c : Char) : Bool := '0' ≤ c && c ≤ '9'

def isWordHead (c : Char) : Bool := ('A' ≤ c && c ≤ 'Z') || ('a' ≤ c && c ≤ 'z') || c == '_'

def isWordChar (c : Char) : Bool := isWordHead c || isDigit c

def isBlank (c : Char) : Bool := c == ' ' || c == '\n' || c == '\t' || c == '\r'

def valueOf (digits : List Char) : ℕ := digits.foldl (fun n d => 10*n + (d.toNat - '0'.toNat)) 0

/-- What a run of word characters is. -/
def classify (w : List Char) : Token :=
  match keywords.lookup w with
  | some k => .keyword k
  | none => if w.head?.any isWordHead then .word w else if w.all isDigit then .number (valueOf w) else .malformed w

/-- What has been read of the token that may still go on. -/
inductive Pending where
  | none
  | word (w : List Char)
  /-- A word that was filled in, and the token it is if nothing is added to it. -/
  | known (w : List Char) (t : Token)
  | colon
  | plus
  | slash
  | quote (s : List Char)
  /-- A comment or a directive, which ends with the line. -/
  | line
deriving DecidableEq, Repr

def Pending.close : Pending → List Token
  | .none => []
  | .word w => [classify w]
  | .known _ t => [t]
  | .colon => [.punct ':']
  | .plus => [.punct '+']
  | .slash => [.punct '/']
  | .quote s => [.malformed s]
  | .line => []

/-- The next character outside of comments and literals. -/
def plainStep (p : Pending) (c : Char) : List Token × Pending :=
  if isWordChar c then
    match p with
    | .word w | .known w _ => ([], .word (w ++ [c]))
    | p => (p.close, .word [c])
  else if c = ':' then if p = .colon then ([.scope], .none) else (p.close, .colon)
  else if c = '+' then if p = .plus then ([.increment], .none) else (p.close, .plus)
  else if c = '/' then if p = .slash then ([], .line) else (p.close, .slash)
  else if c = '"' then (p.close, .quote [])
  else if c = '#' then (p.close, .line)
  else if isBlank c then (p.close, .none)
  else (p.close ++ [.punct c], .none)

def lexStep : Pending → Char → List Token × Pending
  | .line, c => if c = '\n' then ([], .none) else ([], .line)
  | .quote s, c => if c = '"' then ([.quoted s], .none) else ([], .quote (s ++ [c]))
  | p, c => plainStep p c

def lexFrom (p : Pending) : List Char → List Token
  | [] => p.close
  | c :: cs => (lexStep p c).1 ++ lexFrom (lexStep p c).2 cs

def lex (text : List Char) : List Token := lexFrom .none text

/-- A part of a template: text as it stands, or a word to fill in with the token it is. -/
inductive Part where
  | lit (s : List Char)
  | hole (w : List Char) (t : Token)
deriving DecidableEq, Repr

def Part.chars : Part → List Char
  | .lit s => s
  | .hole w _ => w

abbrev Text := List Part

def lit (s : String) : Text := [.lit s.toList]

def hole (w : List Char) : Text := [.hole w (.word w)]

def numeral (n : ℕ) : Text := [.hole (Nat.toDigits 10 n) (.number n)]

def Text.chars (t : Text) : List Char := t.flatMap Part.chars

/-- The tokens of a literal part, and what is pending behind it. -/
def cutText : Pending → List Char → List Token × Pending
  | p, [] => ([], p)
  | p, c :: cs =>
    let (ts, q) := lexStep p c
    let (us, r) := cutText q cs
    (ts ++ us, r)

/-- A word that is filled in goes on with the word that is pending, or in the literal or comment it stands in. -/
def cutWord : Pending → List Char → Token → List Token × Pending
  | .word v, w, _ | .known v _, w, _ => ([], .word (v ++ w))
  | .line, _, _ => ([], .line)
  | .quote s, w, _ => ([], .quote (s ++ w))
  | p, w, t => (p.close, .known w t)

def cutPart (p : Pending) : Part → List Token × Pending
  | .lit s => cutText p s
  | .hole w t => cutWord p w t

/-- The tokens of a template, and what is pending behind it. -/
def cut : Pending → Text → List Token × Pending
  | p, [] => ([], p)
  | p, t :: ts =>
    let (us, q) := cutPart p t
    let (vs, r) := cut q ts
    (us ++ vs, r)

/-- A run of word characters. -/
def IsWord (w : List Char) : Prop := w ≠ [] ∧ ∀ c ∈ w, isWordChar c = true

/-- The words filled in are the tokens they are taken for. -/
def Text.Filled (t : Text) : Prop := ∀ w k, .hole w k ∈ t → IsWord w ∧ classify w = k

section Tokens

theorem cut_append (p : Pending) (a b : Text) :
    cut p (a ++ b) = ((cut p a).1 ++ (cut (cut p a).2 b).1, (cut (cut p a).2 b).2) := by
  induction a generalizing p with
  | nil => rfl
  | cons t ts ih => simp only [List.cons_append, cut, ih, List.append_assoc]

theorem lexFrom_text (p : Pending) (s rest : List Char) :
    lexFrom p (s ++ rest) = (cutText p s).1 ++ lexFrom (cutText p s).2 rest := by
  induction s generalizing p with
  | nil => rfl
  | cons c cs ih => rw [List.cons_append, lexFrom, ih, cutText, List.append_assoc]

theorem not_newline {c : Char} (h : isWordChar c = true) : c ≠ '\n' := by
  rintro rfl
  cases h

theorem not_quote {c : Char} (h : isWordChar c = true) : c ≠ '"' := by
  rintro rfl
  cases h

theorem lexFrom_word {w : List Char} (h : ∀ c ∈ w, isWordChar c = true) (v rest : List Char) :
    lexFrom (.word v) (w ++ rest) = lexFrom (.word (v ++ w)) rest := by
  induction w generalizing v with
  | nil => rw [List.append_nil, List.nil_append]
  | cons c cs ih =>
    have hc := h c List.mem_cons_self
    have hstep : lexStep (.word v) c = ([], .word (v ++ [c])) := if_pos hc
    rw [List.cons_append, lexFrom, hstep, List.nil_append, ih (fun d hd => h d (List.mem_cons_of_mem c hd)),
      List.append_assoc, List.singleton_append]

theorem lexFrom_line {w : List Char} (h : ∀ c ∈ w, isWordChar c = true) (rest : List Char) :
    lexFrom .line (w ++ rest) = lexFrom .line rest := by
  induction w with
  | nil => rfl
  | cons c cs ih =>
    have hstep : lexStep .line c = ([], .line) := if_neg (not_newline (h c List.mem_cons_self))
    rw [List.cons_append, lexFrom, hstep, List.nil_append, ih (fun d hd => h d (List.mem_cons_of_mem c hd))]

theorem lexFrom_quote {w : List Char} (h : ∀ c ∈ w, isWordChar c = true) (s rest : List Char) :
    lexFrom (.quote s) (w ++ rest) = lexFrom (.quote (s ++ w)) rest := by
  induction w generalizing s with
  | nil => rw [List.append_nil, List.nil_append]
  | cons c cs ih =>
    have hstep : lexStep (.quote s) c = ([], .quote (s ++ [c])) := if_neg (not_quote (h c List.mem_cons_self))
    rw [List.cons_append, lexFrom, hstep, List.nil_append, ih (fun d hd => h d (List.mem_cons_of_mem c hd)),
      List.append_assoc, List.singleton_append]

/-- A word starts where the pending token ends. -/
theorem lexFrom_start {w : List Char} (h : IsWord w) {p : Pending} (hp : ∀ c, isWordChar c = true →
    lexStep p c = (p.close, .word [c])) (rest : List Char) :
    lexFrom p (w ++ rest) = p.close ++ lexFrom (.word w) rest := by
  obtain ⟨c, cs, rfl⟩ := List.exists_cons_of_ne_nil h.1
  rw [List.cons_append, lexFrom, hp c (h.2 c List.mem_cons_self),
    lexFrom_word (fun d hd => h.2 d (List.mem_cons_of_mem c hd)), List.singleton_append]

/-- Only the end of a word depends on what it is taken for. -/
theorem lexFrom_known {w : List Char} {t : Token} (h : classify w = t) (rest : List Char) :
    lexFrom (.known w t) rest = lexFrom (.word w) rest := by
  subst h
  cases rest with
  | nil => rfl
  | cons c cs =>
    have hstep : lexStep (.known w (classify w)) c = lexStep (.word w) c := rfl
    rw [lexFrom, hstep, ← lexFrom]

theorem lexFrom_hole (p : Pending) {w : List Char} {t : Token} (h : IsWord w) (ht : classify w = t)
    (rest : List Char) : lexFrom p (w ++ rest) = (cutWord p w t).1 ++ lexFrom (cutWord p w t).2 rest := by
  cases p with
  | word v => exact lexFrom_word h.2 v rest
  | known v u =>
    obtain ⟨c, cs, rfl⟩ := List.exists_cons_of_ne_nil h.1
    have hstep : lexStep (.known v u) c = ([], .word (v ++ [c])) := if_pos (h.2 c List.mem_cons_self)
    rw [List.cons_append, lexFrom, hstep, List.nil_append, lexFrom_word (fun d hd => h.2 d (List.mem_cons_of_mem c hd)),
      List.append_assoc, List.singleton_append]
    rfl
  | line => exact lexFrom_line h.2 rest
  | quote s => exact lexFrom_quote h.2 s rest
  | none | colon | plus | slash =>
    refine (lexFrom_start h (fun c hc => ?_) rest).trans (congrArg _ (lexFrom_known ht rest).symm)
    exact if_pos hc

/-- The tokens of a filled template, whatever text follows. -/
theorem lexFrom_template (p : Pending) {t : Text} (h : t.Filled) (rest : List Char) :
    lexFrom p (t.chars ++ rest) = (cut p t).1 ++ lexFrom (cut p t).2 rest := by
  induction t generalizing p with
  | nil => rfl
  | cons part ts ih =>
    have hrest : Text.Filled ts := fun w k hw => h w k (List.mem_cons_of_mem part hw)
    have hpart : lexFrom p (part.chars ++ (Text.chars ts ++ rest)) =
        (cutPart p part).1 ++ lexFrom (cutPart p part).2 (Text.chars ts ++ rest) := by
      cases part with
      | lit s => exact lexFrom_text p s _
      | hole w k =>
        obtain ⟨hw, hk⟩ := h w k List.mem_cons_self
        exact lexFrom_hole p hw hk _
    rw [Text.chars, List.flatMap_cons, List.append_assoc]
    change lexFrom p (part.chars ++ (Text.chars ts ++ rest)) = _
    rw [hpart, ih _ hrest, cut, List.append_assoc]

theorem lex_template {t : Text} (h : t.Filled) : lex t.chars = (cut .none t).1 ++ (cut .none t).2.close := by
  have hlex := lexFrom_template .none h []
  rwa [List.append_nil] at hlex

end Tokens

end Cpp
