import Cadence.Proofs.Target.Layout
import Cadence.QueryError
import Cadence.Target.Parser

namespace Cadence.Target

namespace Expr

mutual

-- How many calls lie inside each other on the longest path.
def nesting : Expr → Nat
  | call _ args => argNesting args + 1
  | _ => 0

def argNesting : List Expr → Nat
  | [] => 0
  | arg :: args => max arg.nesting (argNesting args)

end

mutual

-- Functions are called by a name, and with one argument or more.
def WellFormed : Expr → Prop
  | call function args => isFunctionName function ∧ args ≠ [] ∧ ArgsWellFormed args
  | _ => True

def ArgsWellFormed : List Expr → Prop
  | [] => True
  | arg :: args => arg.WellFormed ∧ ArgsWellFormed args

end

-- Literals are no targets.
def IsTarget : Expr → Prop
  | series _ => True
  | call _ _ => True
  | _ => False

theorem argNesting_le_iff (args : List Expr) (n : Nat) :
    argNesting args ≤ n ↔ ∀ arg ∈ args, arg.nesting ≤ n := by
  induction args with
  | nil => simp [argNesting]
  | cons arg args ih => rw [argNesting, Nat.max_le, ih, List.forall_mem_cons]

theorem argsWellFormed_iff (args : List Expr) :
    ArgsWellFormed args ↔ ∀ arg ∈ args, arg.WellFormed := by
  induction args with
  | nil => simp [ArgsWellFormed]
  | cons arg args ih => simp [ArgsWellFormed, ih]

theorem argTokens_cons_cons (arg next : Expr) (args : List Expr) :
    argTokens (arg :: next :: args) = arg.tokens ++ .comma :: argTokens (next :: args) := by
  rw [argTokens]
  simp

def commaTokens (args : List Expr) : List Token := args.flatMap fun arg => arg.tokens ++ [.comma]

theorem argTokens_append (before : List Expr) (last : Expr) :
    argTokens (before ++ [last]) = commaTokens before ++ last.tokens := by
  induction before with
  | nil => simp [argTokens, commaTokens]
  | cons arg before ih =>
      have hne : before ++ [last] ≠ [] := by simp
      obtain ⟨next, rest, hrest⟩ := List.exists_cons_of_ne_nil hne
      rw [List.cons_append, hrest, argTokens_cons_cons, ← hrest, ih]
      simp [commaTokens]

-- Whether an expression may stand inside so many open calls.
def Fits (depth : Nat) (e : Expr) : Prop := e.WellFormed ∧ depth + e.nesting ≤ maxNesting

end Expr

def OpenCall.tokens (call : OpenCall) : List Token :=
  .word call.function :: .opening :: Expr.commaTokens call.args.reverse

-- The tokens of the open calls, which are given innermost first.
def openTokens : List OpenCall → List Token
  | [] => []
  | call :: outer => openTokens outer ++ call.tokens

-- What has been read of the open calls is well formed, and leaves the limit of nesting respected.
def OpenFit : List OpenCall → Prop
  | [] => True
  | call :: outer =>
    isFunctionName call.function ∧ outer.length < maxNesting ∧
      (∀ arg ∈ call.args, arg.Fits (outer.length + 1)) ∧ OpenFit outer

namespace ReaderState

def tokens : ReaderState → List Token
  | start => []
  | argument call outer => openTokens (call :: outer)
  | word w calls => openTokens calls ++ [.word w]
  | value e calls => openTokens calls ++ e.tokens

def Fit : ReaderState → Prop
  | start => True
  | argument call outer => OpenFit (call :: outer)
  | word _ calls => OpenFit calls
  | value e calls => OpenFit calls ∧ e.Fits calls.length ∧ (calls = [] → e.IsTarget)

theorem fits_call {call : OpenCall} {outer : List OpenCall} {e : Expr}
    (hopen : OpenFit (call :: outer)) (he : e.Fits (outer.length + 1)) :
    (Expr.call call.function (e :: call.args).reverse).Fits outer.length := by
  obtain ⟨hname, hdepth, hargs, -⟩ := hopen
  have hall : ∀ arg ∈ (e :: call.args).reverse, arg.Fits (outer.length + 1) := by
    intro arg hm
    rcases List.mem_cons.mp (List.mem_reverse.mp hm) with rfl | hm
    · exact he
    · exact hargs arg hm
  refine ⟨⟨hname, by simp, ?_⟩, ?_⟩
  · rw [Expr.argsWellFormed_iff]
    exact fun arg hm => (hall arg hm).1
  · have hn : Expr.argNesting (e :: call.args).reverse ≤ maxNesting - (outer.length + 1) := by
      rw [Expr.argNesting_le_iff]
      intro arg hm
      have := (hall arg hm).2
      omega
    rw [Expr.nesting]
    omega

theorem tokens_call (call : OpenCall) (e : Expr) :
    (Expr.call call.function (e :: call.args).reverse).tokens
      = call.tokens ++ e.tokens ++ [.closing] := by
  rw [Expr.tokens, List.reverse_cons, Expr.argTokens_append, OpenCall.tokens]
  simp

theorem afterValue_tokens {e : Expr} {l : Lexeme} {calls : List OpenCall} {next : ReaderState}
    (h : afterValue e l calls = .ok next) (hopen : OpenFit calls) (he : e.Fits calls.length) :
    next.Fit ∧ next.tokens = openTokens calls ++ e.tokens ++ [l.token] := by
  cases calls with
  | nil => cases h
  | cons call outer =>
      simp only [afterValue] at h
      split at h
      · rename_i hl
        cases h
        obtain ⟨hname, hdepth, hargs, houter⟩ := hopen
        refine ⟨⟨hname, hdepth, ?_, houter⟩, ?_⟩
        · intro arg hm
          rcases List.mem_cons.mp hm with rfl | hm
          · exact he
          · exact hargs arg hm
        · simp [tokens, openTokens, OpenCall.tokens, Expr.commaTokens, hl]
      · rename_i hl
        cases h
        refine ⟨⟨hopen.2.2.2, fits_call hopen he, fun _ => trivial⟩, ?_⟩
        rw [tokens, tokens_call, openTokens, hl]
        simp
      · cases h

theorem length_le_of_openFit {calls : List OpenCall} (hopen : OpenFit calls) :
    calls.length ≤ maxNesting := by
  cases calls with
  | nil => exact Nat.zero_le _
  | cons call outer => exact hopen.2.1

theorem openCall_tokens {function : String} {calls : List OpenCall} {next : ReaderState}
    (h : openCall function calls = .ok next) (hopen : OpenFit calls) :
    next.Fit ∧ next.tokens = openTokens calls ++ [.word function, .opening] := by
  unfold openCall at h
  split at h
  · cases h
  · rename_i hname
    split at h
    · cases h
    · rename_i hlen
      have hdepth := length_le_of_openFit hopen
      cases h
      refine ⟨⟨by simpa using hname, by omega, by simp, hopen⟩, ?_⟩
      simp [tokens, openTokens, OpenCall.tokens, Expr.commaTokens]

theorem takeWord_eq {l : Lexeme} {w : String} (hl : l.token = .word w) (calls : List OpenCall) :
    takeWord calls l = .ok (word w calls) := by
  rw [takeWord, hl]

theorem fits_leaf {e : Expr} {depth : Nat} (hdepth : depth ≤ maxNesting) (hn : e.nesting = 0)
    (hw : e.WellFormed) : e.Fits depth := ⟨hw, by omega⟩

theorem step_tokens {state next : ReaderState} {l : Lexeme} (h : state.step l = .ok next)
    (hfit : state.Fit) : next.Fit ∧ next.tokens = state.tokens ++ [l.token] := by
  cases state with
  | start =>
      simp only [step] at h
      split at h
      · rename_i hl
        rw [takeWord_eq hl] at h
        cases h
        exact ⟨trivial, by simp [tokens, openTokens, hl]⟩
      · cases h
  | argument call outer =>
      have hdepth := length_le_of_openFit hfit
      simp only [step] at h
      split at h
      case h_1 w hl =>
        rw [takeWord_eq hl] at h
        cases h
        exact ⟨hfit, by simp [tokens, hl]⟩
      case h_5 => cases h
      all_goals
        rename_i hl
        cases h
        exact ⟨⟨hfit, fits_leaf hdepth rfl trivial, by simp⟩, by simp [tokens, Expr.tokens, hl]⟩
  | word w calls =>
      simp only [step] at h
      split at h
      · rename_i hl
        have hnext := openCall_tokens h hfit
        simpa [tokens, hl] using hnext
      · have hseries := fits_leaf (e := .series w) (length_le_of_openFit hfit) rfl trivial
        simpa [tokens, Expr.tokens] using afterValue_tokens h hfit hseries
  | value e calls => exact afterValue_tokens h hfit.1 hfit.2.1

theorem finishValue_eq_ok {e e' : Expr} {calls : List OpenCall}
    (h : finishValue e calls = .ok e') : calls = [] ∧ e = e' := by
  cases calls with
  | nil =>
      cases h
      exact ⟨rfl, rfl⟩
  | cons call outer => cases h

theorem finish_tokens {state : ReaderState} {e : Expr} (h : state.finish = .ok e)
    (hfit : state.Fit) : e.tokens = state.tokens ∧ e.IsTarget ∧ e.Fits 0 := by
  cases state with
  | start => cases h
  | argument call outer => cases h
  | word w calls =>
      obtain ⟨rfl, rfl⟩ := finishValue_eq_ok h
      exact ⟨rfl, trivial, fits_leaf (Nat.zero_le _) rfl trivial⟩
  | value e' calls =>
      obtain ⟨rfl, rfl⟩ := finishValue_eq_ok h
      exact ⟨rfl, hfit.2.2 rfl, hfit.2.1⟩

-- Whatever is read from a state, its tokens are those that lead to the state and those read.
theorem read_tokens {state : ReaderState} {ls : List Lexeme} {e : Expr}
    (h : state.read ls = .ok e) (hfit : state.Fit) :
    e.tokens = state.tokens ++ ls.map Lexeme.token ∧ e.IsTarget ∧ e.Fits 0 := by
  induction ls generalizing state with
  | nil =>
      rw [List.map_nil, List.append_nil]
      exact finish_tokens h hfit
  | cons l ls ih =>
      simp only [read] at h
      split at h
      · cases h
      · rename_i next hstep
        obtain ⟨hnext, htokens⟩ := step_tokens hstep hfit
        have hrest := ih h hnext
        rwa [htokens, List.append_assoc, List.singleton_append] at hrest

-- Nothing that would make a call of the word in front.
def NoOpening : List Lexeme → Prop
  | [] => True
  | l :: _ => l.token ≠ .opening

theorem read_word {w : String} {calls : List OpenCall} {rest : List Lexeme}
    (hrest : NoOpening rest) : (word w calls).read rest = (value (.series w) calls).read rest := by
  cases rest with
  | nil => rfl
  | cons l rest =>
      have hstep : (word w calls).step l = (value (.series w) calls).step l := by
        simp only [step]
        split
        · rename_i hl
          exact absurd hl hrest
        · rfl
      rw [read, read, hstep]

theorem read_opening {function : String} {calls : List OpenCall} {l : Lexeme} {rest : List Lexeme}
    (hl : l.token = .opening) (hname : isFunctionName function) (hdepth : calls.length < maxNesting) :
    (word function calls).read (l :: rest) = (argument ⟨function, []⟩ calls).read rest := by
  have hopen : openCall function calls = .ok (argument ⟨function, []⟩ calls) := by
    have hne : calls.length ≠ maxNesting := by omega
    simp [openCall, hname, hne]
  simp [read, step, hl, hopen]

theorem read_comma {e : Expr} {call : OpenCall} {outer : List OpenCall} {l : Lexeme}
    {rest : List Lexeme} (hl : l.token = .comma) :
    (value e (call :: outer)).read (l :: rest)
      = (argument ⟨call.function, e :: call.args⟩ outer).read rest := by
  simp [read, step, afterValue, hl]

theorem read_closing {e : Expr} {call : OpenCall} {outer : List OpenCall} {l : Lexeme}
    {rest : List Lexeme} (hl : l.token = .closing) :
    (value e (call :: outer)).read (l :: rest)
      = (value (.call call.function (e :: call.args).reverse) outer).read rest := by
  simp [read, step, afterValue, hl]

-- Behind the tokens of an expression that may stand inside the open calls, the reader goes on with
-- that expression.
def ReadsAsArgument (e : Expr) : Prop :=
  ∀ (call : OpenCall) (outer : List OpenCall) (ls rest : List Lexeme),
    ls.map Lexeme.token = e.tokens → e.Fits (outer.length + 1) → NoOpening rest →
      (argument call outer).read (ls ++ rest) = (value e (call :: outer)).read rest

theorem read_arguments {args : List Expr} (hread : ∀ arg ∈ args, ReadsAsArgument arg)
    (hne : args ≠ []) {call : OpenCall} {outer : List OpenCall} {ls rest : List Lexeme}
    {close : Lexeme} (hls : ls.map Lexeme.token = Expr.argTokens args)
    (hfit : ∀ arg ∈ args, arg.Fits (outer.length + 1)) (hclose : close.token = .closing) :
    (argument call outer).read (ls ++ close :: rest)
      = (value (.call call.function (call.args.reverse ++ args)) outer).read rest := by
  have hend : NoOpening (close :: rest) := by simp [NoOpening, hclose]
  induction args generalizing call ls with
  | nil => exact absurd rfl hne
  | cons arg args ih =>
      have harg := hread arg (by simp)
      have hargfit := hfit arg (by simp)
      cases args with
      | nil =>
          rw [harg call outer ls _ hls hargfit hend, read_closing hclose]
          simp
      | cons next args =>
          rw [Expr.argTokens_cons_cons] at hls
          obtain ⟨front, back, rfl, hfront, hback⟩ := List.map_eq_append_iff.mp hls
          obtain ⟨comma, ls, rfl, hcomma, hls⟩ := List.map_eq_cons_iff.mp hback
          have hstop : NoOpening (comma :: (ls ++ close :: rest)) := by simp [NoOpening, hcomma]
          rw [List.append_assoc, List.cons_append, harg call outer front _ hfront hargfit hstop,
            read_comma hcomma, ih (fun a hm => hread a (by simp [hm])) (by simp) hls
              (fun a hm => hfit a (by simp [hm]))]
          simp

theorem read_call {function : String} {args : List Expr}
    (hread : ∀ arg ∈ args, ReadsAsArgument arg) (calls : List OpenCall) {ls : List Lexeme}
    (rest : List Lexeme) (hls : ls.map Lexeme.token = (Expr.call function args).tokens)
    (hfit : (Expr.call function args).Fits calls.length) :
    ∃ l after, ls = l :: after ∧ l.token = .word function ∧
      (word function calls).read (after ++ rest) = (value (.call function args) calls).read rest := by
  obtain ⟨⟨hname, hne, hargs⟩, hdepth⟩ := hfit
  rw [Expr.tokens, List.cons_append, List.cons_append] at hls
  obtain ⟨l, ls, rfl, hl, hls⟩ := List.map_eq_cons_iff.mp hls
  obtain ⟨opening, ls, rfl, hopening, hls⟩ := List.map_eq_cons_iff.mp hls
  obtain ⟨inner, last, rfl, hinner, hlast⟩ := List.map_eq_append_iff.mp hls
  obtain ⟨close, rfl, hclose⟩ := List.map_eq_singleton_iff.mp hlast
  refine ⟨l, _, rfl, hl, ?_⟩
  rw [Expr.nesting] at hdepth
  have hfits : ∀ arg ∈ args, arg.Fits (calls.length + 1) := by
    intro arg hm
    have hn := (Expr.argNesting_le_iff args _).mp (Nat.le_refl _) arg hm
    exact ⟨(Expr.argsWellFormed_iff args).mp hargs arg hm, by omega⟩
  rw [List.cons_append, List.append_assoc, List.singleton_append,
    read_opening hopening hname (by omega), read_arguments hread hne hinner hfits hclose]
  rfl

theorem readsAsArgument : (e : Expr) → ReadsAsArgument e
  | .series pattern => by
      intro call outer ls rest hls _ hrest
      obtain ⟨l, rfl, hl⟩ := List.map_eq_singleton_iff.mp hls
      rw [← read_word hrest]
      simp [read, step, takeWord, hl]
  | .number x => by
      intro call outer ls rest hls _ _
      obtain ⟨l, rfl, hl⟩ := List.map_eq_singleton_iff.mp hls
      simp [read, step, hl]
  | .text s => by
      intro call outer ls rest hls _ _
      obtain ⟨l, rfl, hl⟩ := List.map_eq_singleton_iff.mp hls
      simp [read, step, hl]
  | .flag b => by
      intro call outer ls rest hls _ _
      obtain ⟨l, rfl, hl⟩ := List.map_eq_singleton_iff.mp hls
      simp [read, step, hl]
  | .call function args => by
      intro call outer ls rest hls hfit _
      obtain ⟨l, after, rfl, hl, hread⟩ :=
        read_call (fun arg _ => readsAsArgument arg) (call :: outer) rest hls hfit
      rw [← hread]
      simp [read, step, takeWord, hl]

theorem read_of_tokens {e : Expr} {ls : List Lexeme} (hls : e.tokens = ls.map Lexeme.token)
    (htarget : e.IsTarget) (hfit : e.Fits 0) : start.read ls = .ok e := by
  cases e with
  | series pattern =>
      obtain ⟨l, rfl, hl⟩ := List.map_eq_singleton_iff.mp hls.symm
      simp [read, step, takeWord, hl, finish, finishValue]
  | call function args =>
      obtain ⟨l, after, rfl, hl, hread⟩ :=
        read_call (fun arg _ => readsAsArgument arg) [] [] hls.symm hfit
      rw [List.append_nil] at hread
      simp [read, step, takeWord, hl, hread, finish, finishValue]
  | number x => exact absurd htarget id
  | text s => exact absurd htarget id
  | flag b => exact absurd htarget id

end ReaderState

-- What a text may be refused for: not for a word that is not there, and not for a word that looks like a
-- number and is none.
def ParseReason.IsGiven (reason : ParseReason) : Prop := reason ≠ .notAWord ∧ reason ≠ .invalidNumber

namespace ReaderState

variable {e : ParseError}

theorem isGiven_of_openCall {function : String} {calls : List OpenCall}
    (h : openCall function calls = .error e) : e.reason.IsGiven := by
  unfold openCall at h
  split at h
  · cases h
    exact ⟨nofun, nofun⟩
  · split at h
    · cases h
      exact ⟨nofun, nofun⟩
    · cases h

theorem isGiven_of_afterValue {value : Expr} {l : Lexeme} {calls : List OpenCall}
    (h : afterValue value l calls = .error e) : e.reason.IsGiven := by
  cases calls with
  | nil =>
      cases h
      exact ⟨nofun, nofun⟩
  | cons call outer =>
      simp only [afterValue] at h
      split at h
      · cases h
      · cases h
      · cases h
        exact ⟨nofun, nofun⟩

-- A word is taken only where one has been seen.
theorem isGiven_of_step {state : ReaderState} {l : Lexeme} (h : state.step l = .error e) :
    e.reason.IsGiven := by
  cases state with
  | start =>
      simp only [step] at h
      split at h
      · rename_i hl
        rw [takeWord_eq hl] at h
        cases h
      · cases h
        exact ⟨nofun, nofun⟩
  | argument call outer =>
      simp only [step] at h
      split at h
      case h_1 w hl =>
        rw [takeWord_eq hl] at h
        cases h
      case h_5 =>
        cases h
        exact ⟨nofun, nofun⟩
      all_goals cases h
  | word w calls =>
      simp only [step] at h
      split at h
      · exact isGiven_of_openCall h
      · exact isGiven_of_afterValue h
  | value value calls => exact isGiven_of_afterValue h

theorem isGiven_of_finish {state : ReaderState} (h : state.finish = .error e) : e.reason.IsGiven := by
  have hvalue : ∀ value calls, finishValue value calls = .error e → e.reason.IsGiven := by
    rintro value (_ | ⟨call, outer⟩) hfinish
    · cases hfinish
    · cases hfinish
      exact ⟨nofun, nofun⟩
  cases state with
  | start =>
      cases h
      exact ⟨nofun, nofun⟩
  | argument call outer =>
      cases h
      exact ⟨nofun, nofun⟩
  | word w calls => exact hvalue _ _ h
  | value value calls => exact hvalue _ _ h

theorem isGiven_of_read {state : ReaderState} {ls : List Lexeme} (h : state.read ls = .error e) :
    e.reason.IsGiven := by
  induction ls generalizing state with
  | nil => exact isGiven_of_finish h
  | cons l ls ih =>
      simp only [read] at h
      split at h
      · rename_i hstep
        cases h
        exact isGiven_of_step hstep
      · exact ih h

end ReaderState

theorem isGiven_of_tokenize {cs : List Char} {e : ParseError} (h : tokenize cs = .error e) :
    e.reason.IsGiven := by
  obtain ⟨_, _, _, -, -, -, hfault⟩ := Layout.exists_of_tokenize_error h
  cases hfault <;> exact ⟨nofun, nofun⟩

theorem isGiven_of_parse {target : String} {e : ParseError} (h : parse target = .error e) :
    e.reason.IsGiven := by
  unfold parse at h
  split at h
  · rename_i htokens
    cases h
    exact isGiven_of_tokenize htokens
  · exact ReaderState.isGiven_of_read h

-- So the request is at fault.
theorem ofParse_eq_parse {target : String} {e : ParseError} (h : parse target = .error e) :
    QueryError.ofParse e = .parse e.reason.message e.fragment :=
  if_neg (isGiven_of_parse h).1

theorem parseLexemes_eq_ok_iff (ls : List Lexeme) (e : Expr) :
    parseLexemes ls = .ok e ↔
      e.tokens = ls.map Lexeme.token ∧ e.IsTarget ∧ e.WellFormed ∧ e.nesting ≤ maxNesting := by
  constructor
  · intro h
    obtain ⟨htokens, htarget, hwell, hdepth⟩ := ReaderState.read_tokens h trivial
    exact ⟨htokens, htarget, hwell, by omega⟩
  · rintro ⟨htokens, htarget, hwell, hdepth⟩
    exact ReaderState.read_of_tokens htokens htarget ⟨hwell, by omega⟩

theorem parse_eq_ok (target : String) (e : Expr) :
    parse target = .ok e ↔
      ∃ ls, tokenize target.toList = .ok ls ∧ e.tokens = ls.map Lexeme.token ∧
        e.IsTarget ∧ e.WellFormed ∧ e.nesting ≤ maxNesting := by
  unfold parse
  cases htokens : tokenize target.toList with
  | error err => simp
  | ok ls => simpa using parseLexemes_eq_ok_iff ls e

-- Calls side by side do not add up: each argument alone has to respect the limit.
theorem Expr.call_wellFormed_nesting (function : String) (args : List Expr) :
    (Expr.call function args).WellFormed ∧ (Expr.call function args).nesting ≤ maxNesting ↔
      isFunctionName function ∧ args ≠ [] ∧
        ∀ arg ∈ args, arg.WellFormed ∧ arg.nesting < maxNesting := by
  have hlimit : argNesting args + 1 ≤ maxNesting ↔ ∀ arg ∈ args, arg.nesting < maxNesting := by
    have hpos : 0 < maxNesting := by decide
    have hle := argNesting_le_iff args (maxNesting - 1)
    constructor
    · intro h arg hm
      have := hle.mp (by omega) arg hm
      omega
    · intro h
      have := hle.mpr fun arg hm => Nat.le_sub_one_of_lt (h arg hm)
      omega
  rw [WellFormed, nesting, hlimit, argsWellFormed_iff]
  constructor
  · rintro ⟨⟨hname, hne, hwell⟩, hdepth⟩
    exact ⟨hname, hne, fun arg hm => ⟨hwell arg hm, hdepth arg hm⟩⟩
  · rintro ⟨hname, hne, hargs⟩
    exact ⟨⟨hname, hne, fun arg hm => (hargs arg hm).1⟩, fun arg hm => (hargs arg hm).2⟩

-- A text is read exactly as the target whose tokens it is cut into, so there is only one; every
-- other text is refused with a parse error, and the reader's own fault never shows. The last part says what
-- the limit counts.
theorem parse_eq_ok_iff_tokens (target : String) :
    (∀ e, parse target = .ok e ↔
      ∃ ls, tokenize target.toList = .ok ls ∧ e.tokens = ls.map Lexeme.token ∧
        e.IsTarget ∧ e.WellFormed ∧ e.nesting ≤ maxNesting) ∧
    ((∃ e, parse target = .ok e) ∨
      ∃ reason fragment, parse target = .error ⟨reason, fragment⟩ ∧
        reason ≠ .notAWord ∧ reason ≠ .invalidNumber ∧
        (parse target).mapError QueryError.ofParse = .error (.parse reason.message fragment)) ∧
    (∀ function args, parse target = .ok (.call function args) ↔
      ∃ ls, tokenize target.toList = .ok ls ∧
        (Expr.call function args).tokens = ls.map Lexeme.token ∧ isFunctionName function ∧
        args ≠ [] ∧ ∀ arg ∈ args, arg.WellFormed ∧ arg.nesting < maxNesting) := by
  refine ⟨parse_eq_ok target, ?_, ?_⟩
  · cases h : parse target with
    | error err =>
        obtain ⟨hword, hnumber⟩ := isGiven_of_parse h
        exact .inr ⟨err.reason, err.fragment, rfl, hword, hnumber, congrArg Except.error (ofParse_eq_parse h)⟩
    | ok e => exact .inl ⟨e, rfl⟩
  · intro function args
    rw [parse_eq_ok]
    simp only [Expr.call_wellFormed_nesting]
    simp [Expr.IsTarget]

end Cadence.Target
