import RuleLexer.Proofs.Markers
import RuleLexer.Proofs.Results

/-!
A scanner that works on offsets into the text and on numbers of rules, and that checks every
operation which is not defined everywhere.

* `Scanner.Fault`, `Scanner.Checked`: what can be out of place, and results that may be faults;
* `NumberedIndex.ofRules`: the index of a list of rules, in which a rule is known by its number;
* `Scanner.slice`, `Scanner.rule`, `Scanner.closingsOf`, `Scanner.spanFrom`: the operations that are
  checked;
* `Scanner.captureTurn`, `Scanner.turn`: one turn of the two loops, that through the inside of a
  section and that over a level;
* `Scanner.scan`, `Scanner.tokenize`: a level with the sections inside it by recursion. The loops
  and the recursion use up fuel, and to be out of fuel is a fault too.
-/

namespace RuleLexer

variable {κ : Type}

/-! ### The numbered index -/

/-- A fixed text under the number of its rule. -/
structure Candidate where
  rule : ℕ
  text : List Char
  endsLine : Bool
deriving DecidableEq, Repr

/-- The index of a list of rules. Nothing is known of the texts, not even that they have
characters. -/
structure NumberedIndex where
  /-- The runs in the order of their declaration. -/
  runs : List (ℕ × CharClass)
  escapes : List Char
  /-- The literals that end a line, the longest first. -/
  lineEnds : List (List Char)
  /-- The fixed texts under their first characters, the longest first. -/
  candidates : MultiMap Char Candidate
  /-- The closing markers of each rule, the longest first, by its number. -/
  closings : List (List (List Char))
deriving Repr

namespace Rule

/-- The run that the rule with the number `n` recognises, if it is one. -/
def numberedRun? (n : ℕ) : Rule κ → Option (ℕ × CharClass)
  | run _ charClass _ => some (n, charClass)
  | _ => none

/-- The fixed text of the rule with the number `n`, if it has one. -/
def candidate? (n : ℕ) : Rule κ → Option Candidate
  | literal _ text _ => some ⟨n, text.toList, text.toList.all isLineBreak⟩
  | delimited _ opening _ _ _ => some ⟨n, opening.toList, false⟩
  | run .. => none
  | escape _ => none

/-- The closing markers of the rule, the longest first. -/
def closingTexts : Rule κ → List (List Char)
  | delimited _ _ closings _ _ =>
      stableSort (fun a b => b.length ≤ a.length) (closings.map String.toList)
  | _ => []

end Rule

namespace NumberedIndex

/-- The fixed texts of the rules, in the order of their declaration. -/
def declared (rules : List (Rule κ)) : List Candidate :=
  rules.zipIdx.filterMap fun entry => entry.1.candidate? entry.2

/-- The index of the rules, which are numbered from 0. -/
def ofRules (rules : List (Rule κ)) : NumberedIndex where
  runs := rules.zipIdx.filterMap fun entry => entry.1.numberedRun? entry.2
  escapes := (escapeChars rules).eraseDups
  lineEnds := stableSort (fun a b => b.length ≤ a.length)
    (((declared rules).filter (·.endsLine)).map (·.text)).eraseDups
  candidates :=
    (MultiMap.ofList ((declared rules).filterMap fun k => k.text.head?.map (·, k))).sortGroups
      fun a b => b.text.length ≤ a.text.length
  closings := rules.map Rule.closingTexts

/-- The number of the first run that accepts `c`. -/
def runFor? (ix : NumberedIndex) (c : Char) : Option ℕ :=
  (ix.runs.find? (·.2.accepts c)).map (·.1)

/-- Whether `c` escapes the character after it. -/
def isEscape (ix : NumberedIndex) (c : Char) : Bool :=
  ix.escapes.contains c

/-- The fixed texts that begin with `c`, the longest first. -/
def candidatesFrom (ix : NumberedIndex) (c : Char) : List Candidate :=
  (ix.candidates.get? c).getD []

end NumberedIndex

/-! ### Checked results -/

namespace Scanner

/-- What can be out of place. -/
inductive Fault where
  /-- The characters from `start` up to `stop`, where there are only `length`. -/
  | slice (start stop length : ℕ)
  /-- A number that no rule has. -/
  | number (n : ℕ)
  /-- The rule with the number `n` has no fixed text, though it was found by one. -/
  | noFixedText (n : ℕ)
  /-- A span that ends before it begins. -/
  | span (start stop : Coord)
  /-- There is no fuel left. -/
  | fuel
deriving DecidableEq, Repr

/-- Why there is no result. -/
inductive Halt where
  | fault (f : Fault)
  | error (e : ScanError)
deriving DecidableEq, Repr

/-- A result, or the fault or the error for which there is none. -/
abbrev Checked (α : Type) : Type := Except Halt α

/-- What a turn of a loop leads to: another turn, or the end of the loop. -/
inductive Turn (σ ρ : Type) where
  | more (state : σ)
  | done (result : ρ)

/-- What is to hold of the state of the next turn, or else of the result. -/
def Turn.Keeps {σ ρ : Type} (P : σ → Prop) (Q : ρ → Prop) : Turn σ ρ → Prop
  | more state => P state
  | done result => Q result

/-- Takes turns until the loop is over. Each turn uses up some fuel. -/
def loop {σ ρ : Type} (turn : σ → Checked (Turn σ ρ)) : ℕ → σ → Checked ρ
  | 0, _ => .error (.fault .fuel)
  | fuel + 1, state => do
      match ← turn state with
      | .more next => loop turn fuel next
      | .done result => .ok result

/-- The characters from `start` up to `stop`. -/
def slice (chars : List Char) (start stop : ℕ) : Checked (List Char) :=
  if start ≤ stop ∧ stop ≤ chars.length then .ok ((chars.drop start).take (stop - start))
  else .error (.fault (.slice start stop chars.length))

/-- A place in the text. -/
structure Place where
  offset : ℕ
  position : Position
deriving DecidableEq, Repr

namespace Place

/-- The place `n` characters further on the same line. -/
def advance (p : Place) (n : ℕ) : Place :=
  ⟨p.offset + n, p.position.advance n⟩

/-- The place `n` characters further, at the beginning of a line. -/
def advanceLine (p : Place) (n : ℕ) : Place :=
  ⟨p.offset + n, p.position.nextLine⟩

/-- The place `n` characters further, at the beginning of a line when they end one. -/
def skip (p : Place) (n : ℕ) (endsLine : Bool) : Place :=
  if endsLine then p.advanceLine n else p.advance n

end Place

/-- The characters from the offset `start` up to a place. -/
def spanFrom (start : ℕ) (p : Place) : Checked Span :=
  let span := Span.between start p.offset
  if span.start.val ≤ span.stop.val then .ok span
  else .error (.fault (.span span.start span.stop))

end Scanner

/-- What is scanned, and by which rules. -/
structure Scanner (κ : Type) where
  rules : List (Rule κ)
  index : NumberedIndex
  text : List Char

namespace Scanner

/-- The scanner of a text by a list of rules. -/
def ofRules (rules : List (Rule κ)) (text : String) : Scanner κ :=
  ⟨rules, .ofRules rules, text.toList⟩

variable (s : Scanner κ)

/-- The rule with the number `n`. -/
def rule (n : ℕ) : Checked (Rule κ) :=
  match s.rules[n]? with
  | some r => .ok r
  | none => .error (.fault (.number n))

/-- The closing markers of the rule with the number `n`. -/
def closingsOf (n : ℕ) : Checked (List (List Char)) :=
  match s.index.closings[n]? with
  | some ends => .ok ends
  | none => .error (.fault (.number n))

/-- Whether a marker stands at an offset. -/
def matchesAt (offset : ℕ) (marker : List Char) : Bool :=
  offset + marker.length ≤ s.text.length && (s.text.drop offset).take marker.length == marker

/-- The length of the first of the markers that stands at an offset. -/
def matchAnyAt (offset : ℕ) (markers : List (List Char)) : Option ℕ :=
  (markers.find? (s.matchesAt offset ·)).map List.length

/-- The place after a closing marker of `n` characters. -/
def pastMarker (p : Place) (n : ℕ) : Checked Place := do
  let marker ← slice s.text p.offset (p.offset + n)
  .ok (p.skip n (marker.all isLineBreak))

/-! ### Tokens -/

/-- A run in progress. -/
structure PendingRun where
  rule : ℕ
  buffer : List Char
  start : Place

/-- The tokens with that of the run in progress, which ends at `p`. -/
def flush (tokens : TokenList κ) (pending : Option PendingRun) (p : Place) :
    Checked (TokenList κ) :=
  match pending with
  | none => .ok tokens
  | some run => do
      let rule ← s.rule run.rule
      if rule.discards then .ok tokens
      else match rule.kind? with
        | none => .ok tokens
        | some kind => do
            let span ← spanFrom run.start.offset p
            .ok (tokens ++
              [⟨kind, String.ofList run.buffer, [], none, run.start.position, span⟩])

/-- The tokens, and the run with the number `n` in progress at `p`. If it is not in progress yet it
begins there, and another one ends. -/
def resume (tokens : TokenList κ) (pending : Option PendingRun) (n : ℕ) (p : Place) :
    Checked (TokenList κ × PendingRun) :=
  match pending with
  | none => .ok (tokens, ⟨n, [], p⟩)
  | some run =>
      if run.rule = n then .ok (tokens, run)
      else do
        let tokens ← s.flush tokens pending p
        .ok (tokens, ⟨n, [], p⟩)

/-- A fixed text that was found. -/
structure Found where
  rule : ℕ
  /-- The number of characters that it covers, an escape character included. -/
  consumed : ℕ
  endsLine : Bool

/-- The first of the fixed texts that goes on, after its first character, with what stands at an
offset. -/
def findCandidate (offset : ℕ) : List Candidate → Checked (Option Candidate)
  | [] => .ok none
  | k :: rest => do
      let tail ← slice k.text 1 k.text.length
      if s.matchesAt offset tail then .ok (some k) else findCandidate offset rest

/-- The longest fixed text that stands at a place. -/
def bestFixed (p : Place) : Checked (Option Found) :=
  match s.text[p.offset]? with
  | none => .ok none
  | some c =>
      let (lead, skip) := match s.text[p.offset + 1]? with
        | some next => if s.index.isEscape c then (unescape next, 1) else (c, 0)
        | none => (c, 0)
      do
        let found ← s.findCandidate (p.offset + skip + 1) (s.index.candidatesFrom lead)
        .ok (found.map fun k => ⟨k.rule, skip + k.text.length, k.endsLine && skip == 0⟩)

/-! ### The inside of a section that is taken as it stands -/

/-- How far the inside was captured, and what it stands for up to there. -/
structure Inner where
  place : Place
  content : List Char

/-- A captured inside. -/
structure RawInside where
  raw : List Char
  content : List Char
  closing : List Char
  /-- The place after the closing marker. -/
  stop : Place

/-- One turn through the inside of a section, which began at the offset `inside` and was opened at
`start`. -/
def captureTurn (ends : List (List Char)) (start : Position) (inside : ℕ) (st : Inner) :
    Checked (Turn Inner RawInside) :=
  let offset := st.place.offset
  match s.text[offset]? with
  | none => .error (.error (.unterminatedSection start st.place.position))
  | some c =>
      if s.index.isEscape c then
        match s.text[offset + 1]? with
        | none => .ok (.more ⟨st.place.advance 1, st.content⟩)
        | some next =>
            if isLineBreak next then do
              let n := (s.matchAnyAt (offset + 1) s.index.lineEnds).getD 1
              let lineEnd ← slice s.text (offset + 1) (offset + 1 + n)
              .ok (.more ⟨st.place.advanceLine (1 + n), st.content ++ lineEnd⟩)
            else .ok (.more ⟨st.place.advance 2, st.content ++ [unescape next]⟩)
      else match s.matchAnyAt offset ends with
        | some n => do
            let raw ← slice s.text inside offset
            let closing ← slice s.text offset (offset + n)
            let stop ← s.pastMarker st.place n
            .ok (.done ⟨raw, st.content, closing, stop⟩)
        | none =>
            match s.matchAnyAt offset s.index.lineEnds with
            | some n => do
                let lineEnd ← slice s.text offset (offset + n)
                .ok (.more ⟨st.place.advanceLine n, st.content ++ lineEnd⟩)
            | none => .ok (.more ⟨st.place.advance 1, st.content ++ [c]⟩)

/-! ### Levels -/

/-- How far a level was scanned, with its tokens up to there and the run in progress. -/
structure Scanned (κ : Type) where
  place : Place
  tokens : TokenList κ
  pending : Option PendingRun

/-- How a level inside is scanned: by its closing markers and the place where it begins. -/
abbrev Recur (κ : Type) : Type := List (List Char) → Place → Checked (TokenList κ × Place)

/-- The token of a nested section that was opened at `p` by the characters `text`, with the tokens
`nested` inside, when its inside is over at `closing`. -/
def closeNested (kind : κ) (p : Place) (text : List Char) (ends : List (List Char))
    (nested : TokenList κ) (closing : Place) : Checked (Token κ × Place) :=
  match s.matchAnyAt closing.offset ends with
  | none => .error (.error (.unterminatedSection p.position closing.position))
  | some n => do
      let close ← slice s.text closing.offset (closing.offset + n)
      let stop ← s.pastMarker closing n
      let span ← spanFrom p.offset stop
      .ok (⟨kind, String.ofList (text ++ close), nested,
        some ⟨String.ofList text, String.ofList close, none⟩, p.position, span⟩, stop)

section Level

variable (fuel : ℕ) (recur : Recur κ)

/-- The token of a fixed text that was found, and the place after it. -/
def scanFixed (m : Found) (p : Place) : Checked (Token κ × Place) := do
  let text ← slice s.text p.offset (p.offset + m.consumed)
  let inside := p.skip m.consumed m.endsLine
  match ← s.rule m.rule with
  | .literal kind _ _ => do
      let span ← spanFrom p.offset inside
      .ok (⟨kind, String.ofList text, [], none, p.position, span⟩, inside)
  | .delimited kind _ _ true _ => do
      let ends ← s.closingsOf m.rule
      let (nested, closing) ← recur ends inside
      s.closeNested kind p text ends nested closing
  | .delimited kind _ _ false _ => do
      let ends ← s.closingsOf m.rule
      let inner ← loop (s.captureTurn ends p.position inside.offset) fuel ⟨inside, []⟩
      let span ← spanFrom p.offset inner.stop
      .ok (⟨kind, String.ofList (text ++ inner.raw ++ inner.closing), [],
        some ⟨String.ofList text, String.ofList inner.closing, some (String.ofList inner.content)⟩,
        p.position, span⟩, inner.stop)
  | .run .. => .error (.fault (.noFixedText m.rule))
  | .escape _ => .error (.fault (.noFixedText m.rule))

/-- The run in progress ends at a fixed text, whose token is added. -/
def takeFixed (m : Found) (st : Scanned κ) : Checked (Scanned κ) := do
  let tokens ← s.flush st.tokens st.pending st.place
  let rule ← s.rule m.rule
  let (token, place) ← s.scanFixed fuel recur m st.place
  .ok ⟨place, if rule.discards then tokens else tokens ++ [token], none⟩

/-- The run with the number `n` takes a character. -/
def takeChar (n : ℕ) (st : Scanned κ) : Checked (Scanned κ) := do
  let (tokens, run) ← s.resume st.tokens st.pending n st.place
  let char ← slice s.text st.place.offset (st.place.offset + 1)
  .ok ⟨st.place.advance 1, tokens, some { run with buffer := run.buffer ++ char }⟩

/-- One turn over a level that the markers `ends` close, if it is one inside a section. -/
def turn (ends : Option (List (List Char))) (st : Scanned κ) :
    Checked (Turn (Scanned κ) (Scanned κ)) :=
  match s.text[st.place.offset]? with
  | none => .ok (.done st)
  | some c =>
      if ends.any fun markers => (s.matchAnyAt st.place.offset markers).isSome then .ok (.done st)
      else do
        let run := s.index.runFor? c
        let continues := run.any fun n => st.pending.any (·.rule == n)
        let best ← s.bestFixed st.place
        match if continues then none else best, run with
        | some m, _ => do
            let next ← s.takeFixed fuel recur m st
            .ok (.more next)
        | none, some n => do
            let next ← s.takeChar n st
            .ok (.more next)
        | none, none => do
            let rest ← slice s.text st.place.offset s.text.length
            .error (.error (.unexpected rest st.place.position))

/-- The tokens of a level that is over, and the place where it ends. -/
def finish (st : Scanned κ) : Checked (TokenList κ × Place) := do
  let tokens ← s.flush st.tokens st.pending st.place
  .ok (tokens, st.place)

/-- The tokens of a level that begins at `p`, and the place where it ends. -/
def scanLevel (ends : Option (List (List Char))) (p : Place) : Checked (TokenList κ × Place) := do
  let st ← loop (s.turn fuel recur ends) fuel ⟨p, [], none⟩
  s.finish st

end Level

/-- A level that begins at `p`, with the levels inside, down to the given depth. -/
def scan (fuel : ℕ) : ℕ → Option (List (List Char)) → Place → Checked (TokenList κ × Place)
  | 0, _, _ => .error (.fault .fuel)
  | depth + 1, ends, p => s.scanLevel fuel (fun inner q => scan fuel depth (some inner) q) ends p

/-- The tokens of the whole text, with so much fuel for every loop and so much for the recursion. -/
def tokenize (fuel depth : ℕ) : Checked (TokenList κ) := do
  let (tokens, _) ← s.scan fuel depth none ⟨0, .start⟩
  .ok tokens

end Scanner

end RuleLexer
