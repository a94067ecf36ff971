import Mathlib.Tactic.SplitIfs

set_option autoImplicit false

/-!
# Token recognition of the shell

A command text is read character by character. Quotes decide what a character is: a part of a word,
a blank, the beginning of an expansion, or a part of an operator. An expansion is only marked, and
what it contains is not looked at.

* `Quoting`, `step`, `readings`: the characters; `Token`, `tokens`: what they form;
* `SingleCommand`: words only, so that there is one simple command at most;
* `newlinesQuoted`: every newline stands in quotes, or behind a backslash;
* **`singleCommand_iff`**: where the newline is the only operator and there is no expansion.
-/

namespace Shell

/-- What the quotes before a character make of it. A comment begins where no word has begun. -/
inductive Quoting
  | bare (inWord : Bool)
  | escaped (inWord : Bool)
  | single
  | double
  | doubleEscaped
  | comment
  deriving DecidableEq, Repr

/-- What a character is. -/
inductive Reading
  | letter (c : Char)
  | blank
  | operator (c : Char)
  | expansion (c : Char)
  deriving DecidableEq, Repr

/-- The characters that begin an operator. -/
def operatorStart : List Char := ['&', '|', ';', '<', '>', '(', ')', '\n']

/-- The characters that begin an expansion: the dollar sign and the backquote. -/
def expansionStart : List Char := ['$', '\x60']

/-- **One character.** A backslash is read with the next character, and goes with a newline. -/
def step : Quoting → Char → Quoting × List Reading
  | .bare inWord, c =>
      if c = '\\' then (.escaped inWord, [])
      else if c = '\x27' then (.single, [.letter c])
      else if c = '\x22' then (.double, [.letter c])
      else if c ∈ expansionStart then (.bare true, [.expansion c])
      else if c ∈ operatorStart then (.bare false, [.operator c])
      else if c = ' ' ∨ c = '\t' then (.bare false, [.blank])
      else if c = '#' ∧ inWord = false then (.comment, [])
      else (.bare true, [.letter c])
  | .escaped inWord, c =>
      if c = '\n' then (.bare inWord, []) else (.bare true, [.letter '\\', .letter c])
  | .single, c => (if c = '\x27' then .bare true else .single, [.letter c])
  | .double, c =>
      if c = '\\' then (.doubleEscaped, [])
      else if c = '\x22' then (.bare true, [.letter c])
      else if c ∈ expansionStart then (.double, [.expansion c])
      else (.double, [.letter c])
  | .doubleEscaped, c => (.double, if c = '\n' then [] else [.letter '\\', .letter c])
  | .comment, c => if c = '\n' then (.bare false, [.operator c]) else (.comment, [])

/-- A backslash at the end is a part of a word. -/
def finish : Quoting → List Reading
  | .escaped _ | .doubleEscaped => [.letter '\\']
  | _ => []

/-- What the characters are, after the quotes before them. -/
def readings : Quoting → List Char → List Reading
  | q, [] => finish q
  | q, c :: cs => (step q c).2 ++ readings (step q c).1 cs

/-! ## Tokens -/

/-- A word, as it is written, an operator, or the mark of an expansion. -/
inductive Token
  | word (text : List Char)
  | operator (text : List Char)
  | expansion (c : Char)
  deriving DecidableEq, Repr

def controlOperators : List (List Char) :=
  [['&'], ['&', '&'], ['('], [')'], [';'], [';', ';'], ['\n'], ['|'], ['|', '|']]

def redirectionOperators : List (List Char) :=
  [['<'], ['>'], ['>', '|'], ['<', '<'], ['>', '>'], ['<', '&'], ['>', '&'], ['<', '<', '-'],
    ['<', '>']]

/-- The token with one more reading, if it belongs to it. -/
def Token.extend : Token → Reading → Option Token
  | .word text, .letter c => some (.word (text ++ [c]))
  | .operator text, .operator c | .operator text, .letter c =>
      if text ++ [c] ∈ controlOperators ++ redirectionOperators then some (.operator (text ++ [c]))
      else none
  | _, _ => none

/-- The token that a reading begins. -/
def Reading.token : Reading → Option Token
  | .letter c => some (.word [c])
  | .blank => none
  | .operator c => some (.operator [c])
  | .expansion c => some (.expansion c)

/-- The tokens of the readings, after the token that has begun. -/
def tokensFrom : Option Token → List Reading → List Token
  | pending, [] => pending.toList
  | pending, r :: rs =>
      match pending.bind (·.extend r) with
      | some t => tokensFrom (some t) rs
      | none => pending.toList ++ tokensFrom r.token rs

def tokens (text : List Char) : List Token := tokensFrom none (readings (.bare false) text)

def Token.isControl : Token → Bool
  | .operator text => text ∈ controlOperators
  | _ => false

def Token.isRedirection : Token → Bool
  | .operator text => text ∈ redirectionOperators
  | _ => false

def Token.isExpansion : Token → Bool
  | .expansion _ => true
  | _ => false

/-- What stands between the control operators: each is one simple command at most. -/
def simpleCommands (ts : List Token) : List (List Token) :=
  (ts.splitOnP Token.isControl).filter fun command => !command.isEmpty

/-- **A single command**: there is no control operator, no redirection and no expansion, and so one
simple command at most. -/
structure SingleCommand (text : List Char) : Prop where
  control : ∀ t ∈ tokens text, t.isControl = false
  redirection : ∀ t ∈ tokens text, t.isRedirection = false
  expansion : ∀ t ∈ tokens text, t.isExpansion = false
  single : (simpleCommands (tokens text)).length ≤ 1

/-! ## Quoted newlines -/

/-- The next character is quoted. -/
def Quoting.quotes : Quoting → Bool
  | .bare _ | .comment => false
  | _ => true

/-- **Every newline is quoted**: it stands in quotes, or behind a backslash. -/
def newlinesQuoted : Quoting → List Char → Bool
  | _, [] => true
  | q, c :: cs => (c != '\n' || q.quotes) && newlinesQuoted (step q c).1 cs

/-- A part of a word, or a blank. -/
def Reading.isPlain : Reading → Bool
  | .letter _ | .blank => true
  | .operator _ | .expansion _ => false

def Token.isWord : Token → Bool
  | .word _ => true
  | _ => false

variable {q : Quoting} {c : Char} {text : List Char} {rs : List Reading} {pending : Option Token}

theorem step_newline (hq : q.quotes = false) : (step q '\n').2 = [.operator '\n'] := by
  cases q with
  | bare inWord => rfl
  | comment => rfl
  | escaped | single | double | doubleEscaped => cases hq

/-- **A character that begins nothing** is a part of a word, or a blank. -/
theorem step_plain (hexp : c ∉ expansionStart)
    (hop : c ∈ operatorStart → c = '\n' ∧ q.quotes = true) :
    ∀ r ∈ (step q c).2, r.isPlain = true := by
  cases q with
  | bare inWord =>
      have hop : c ∉ operatorStart := fun h => Bool.false_ne_true (hop h).2
      simp only [step, if_neg hexp, if_neg hop]
      split_ifs <;> simp [Reading.isPlain]
  | escaped inWord =>
      simp only [step]
      split_ifs <;> simp [Reading.isPlain]
  | single => simp [step, Reading.isPlain]
  | double =>
      simp only [step, if_neg hexp]
      split_ifs <;> simp [Reading.isPlain]
  | doubleEscaped =>
      simp only [step]
      split_ifs <;> simp [Reading.isPlain]
  | comment =>
      simp only [step]
      split_ifs with hc
      · exact absurd (hop (hc ▸ by decide)).2 Bool.false_ne_true
      · simp

theorem readings_plain (hexp : ∀ c ∈ text, c ∉ expansionStart)
    (hop : ∀ c ∈ text, c ∈ operatorStart → c = '\n') (h : newlinesQuoted q text = true) :
    ∀ r ∈ readings q text, r.isPlain = true := by
  induction text generalizing q with
  | nil => cases q <;> simp [readings, finish, Reading.isPlain]
  | cons c cs ih =>
      rw [newlinesQuoted, Bool.and_eq_true, Bool.or_eq_true, bne_iff_ne] at h
      intro r hr
      rcases List.mem_append.mp hr with hr | hr
      · refine step_plain (hexp c List.mem_cons_self) (fun hc => ?_) r hr
        have hnl := hop c List.mem_cons_self hc
        exact ⟨hnl, h.1.resolve_left (absurd hnl)⟩
      · exact ih (fun d hd => hexp d (List.mem_cons_of_mem c hd))
          (fun d hd => hop d (List.mem_cons_of_mem c hd)) h.2 r hr

theorem newline_mem_readings (h : newlinesQuoted q text = false) :
    .operator '\n' ∈ readings q text := by
  induction text generalizing q with
  | nil => cases h
  | cons c cs ih =>
      rw [newlinesQuoted, Bool.and_eq_false_iff, Bool.or_eq_false_iff, bne_eq_false_iff_eq] at h
      rw [readings]
      rcases h with ⟨rfl, hq⟩ | h
      · rw [step_newline hq]
        exact List.mem_append_left _ (List.mem_singleton_self _)
      · exact List.mem_append_right _ (ih h)

theorem Token.isWord_extend {t t' : Token} {r : Reading} (ht : t.isWord = true)
    (h : t.extend r = some t') : t'.isWord = true := by
  cases t with
  | word text =>
      cases r with
      | letter c =>
          obtain rfl := Option.some.inj h
          rfl
      | blank | operator | expansion => cases h
  | operator | expansion => cases ht

theorem Reading.isWord_token {t : Token} {r : Reading} (hr : r.isPlain = true)
    (h : r.token = some t) : t.isWord = true := by
  cases r with
  | letter c =>
      obtain rfl := Option.some.inj h
      rfl
  | blank => cases h
  | operator | expansion => cases hr

theorem isWord_tokensFrom (hp : ∀ t ∈ pending, t.isWord = true)
    (h : ∀ r ∈ rs, r.isPlain = true) : ∀ t ∈ tokensFrom pending rs, t.isWord = true := by
  induction rs generalizing pending with
  | nil => simpa [tokensFrom] using hp
  | cons r rs ih =>
      obtain ⟨hr, hrs⟩ := List.forall_mem_cons.mp h
      rw [tokensFrom]
      split
      · rename_i t ht
        obtain ⟨u, hu, hext⟩ := Option.bind_eq_some_iff.mp ht
        refine ih (fun t' ht' => ?_) hrs
        obtain rfl := Option.some.inj ht'
        exact Token.isWord_extend (hp u hu) hext
      · refine List.forall_mem_append.mpr ⟨by simpa using hp, ih (fun t ht => ?_) hrs⟩
        exact Reading.isWord_token hr ht

theorem extend_of_newline (r : Reading) : (Token.operator ['\n']).extend r = none := by
  have hhead : ∀ c : Char, ['\n'] ++ [c] ∉ controlOperators ++ redirectionOperators := by
    intro c
    simp [controlOperators, redirectionOperators]
  cases r with
  | letter c | operator c =>
      unfold Token.extend
      exact if_neg (hhead c)
  | blank | expansion => rfl

theorem eq_of_extend_newline {t t' : Token} (h : t.extend (.operator '\n') = some t') :
    t' = .operator ['\n'] := by
  have hlast : ∀ l ∈ controlOperators ++ redirectionOperators,
      l.getLast? = some '\n' → l = ['\n'] := by decide
  cases t with
  | operator text =>
      simp only [Token.extend] at h
      split_ifs at h with hmem
      rw [← Option.some.inj h, hlast _ hmem List.getLast?_concat]
  | word | expansion => cases h

theorem newline_mem_of_pending (rs : List Reading) :
    .operator ['\n'] ∈ tokensFrom (some (.operator ['\n'])) rs := by
  cases rs with
  | nil => exact List.mem_singleton_self _
  | cons r rs =>
      rw [tokensFrom, Option.bind_some, extend_of_newline]
      exact List.mem_append_left _ (List.mem_singleton_self _)

/-- **A newline that is an operator** is a token. -/
theorem newline_mem_tokensFrom (h : .operator '\n' ∈ rs) :
    .operator ['\n'] ∈ tokensFrom pending rs := by
  induction rs generalizing pending with
  | nil => cases h
  | cons r rs ih =>
      rw [tokensFrom]
      split
      · rename_i t ht
        rcases List.mem_cons.mp h with rfl | h
        · obtain ⟨u, -, hext⟩ := Option.bind_eq_some_iff.mp ht
          rw [eq_of_extend_newline hext]
          exact newline_mem_of_pending rs
        · exact ih h
      · refine List.mem_append_right _ ?_
        rcases List.mem_cons.mp h with rfl | h
        · exact newline_mem_of_pending rs
        · exact ih h

theorem singleCommand_of_words (h : ∀ t ∈ tokens text, t.isWord = true) : SingleCommand text := by
  have hcontrol : ∀ t ∈ tokens text, t.isControl = false := by
    intro t ht
    cases t with
    | word => rfl
    | operator | expansion => cases h _ ht
  refine ⟨hcontrol, fun t ht => ?_, fun t ht => ?_, ?_⟩
  · cases t with
    | word => rfl
    | operator | expansion => cases h _ ht
  · cases t with
    | word => rfl
    | operator | expansion => cases h _ ht
  · rw [simpleCommands, List.splitOnP_eq_singleton hcontrol]
    exact List.length_filter_le _ _

/-- **A text without expansions, in which a newline is the only character that begins an operator**,
is a single command exactly if every newline is quoted. -/
theorem singleCommand_iff (hexp : ∀ c ∈ text, c ∉ expansionStart)
    (hop : ∀ c ∈ text, c ∈ operatorStart → c = '\n') :
    SingleCommand text ↔ newlinesQuoted (.bare false) text = true := by
  constructor
  · intro h
    cases hn : newlinesQuoted (.bare false) text with
    | true => rfl
    | false =>
        have hcontrol := h.control _ (newline_mem_tokensFrom (newline_mem_readings hn))
        exact absurd hcontrol (by decide)
  · intro h
    exact singleCommand_of_words
      (isWord_tokensFrom (fun t ht => by cases ht) (readings_plain hexp hop h))

end Shell
