import DayJournal.Calendar.Token
import DayJournal.Entry.Tag
import DayJournal.Query.Shorthand

/-!
# Filters

A query is a row of tokens.  Each token is a clause of its own: kinds of entries, of which one must
hold, and conditions, all of which must.  A token that is no clause is kept among the unknown ones
and has no other effect.  Reading a query fails only where the calendar has no date for a bound.
-/

namespace DayJournal

/-- The two ends of the range of dates that a query asks for. -/
inductive Bound where
  | before
  | after
  deriving DecidableEq

def Bound.word : Bound → Text
  | before => "before:".toList
  | after => "after:".toList

inductive Clause where
  | unknown
  | bound (side : Bound) (date : Text)
  | overdue
  | later
  | recurring
  | withoutTag (name : Text)
  | withoutKind (kind : Kind)
  | withoutTerm (term : Text)
  | kind (kind : Kind) (completed : Option Bool)
  | tag (name : Text)
  | term (term : Text)
  deriving DecidableEq

structure Filter where
  kinds : List Kind := []
  completed : Option Bool := none
  tags : List Text := []
  excludedTags : List Text := []
  terms : List Text := []
  excludedTerms : List Text := []
  excludedKinds : List Kind := []
  before : Option Date := none
  after : Option Date := none
  overdue : Bool := false
  later : Bool := false
  recurring : Bool := false
  unknown : List Text := []
  deriving DecidableEq

namespace Clause

/-- The words for the kinds of entries, and the completion that each asks for. -/
def kindWords : List (Text × Kind × Option Bool) := [
  ("tasks".toList, .task, some false), ("task".toList, .task, some false),
  ("t".toList, .task, some false), ("completed".toList, .task, some true),
  ("c".toList, .task, some true), ("notes".toList, .note, none), ("note".toList, .note, none),
  ("n".toList, .note, none), ("events".toList, .event, none), ("event".toList, .event, none),
  ("e".toList, .event, none)]

/-- The kind that a word excludes.  Completed tasks are no kind of their own here. -/
def excludedKind? (word : Text) : Option Kind :=
  match kindWords.lookup word with
  | some (_, some true) => none
  | some (k, _) => some k
  | none => none

def excluding : Text → Clause
  | [] => unknown
  | '#' :: name => withoutTag name
  | '!' :: word => (excludedKind? word).elim unknown withoutKind
  | word => withoutTerm word

def dated (s : Text) : Clause :=
  let bound? := [Bound.before, .after].findSome? fun side =>
    (Text.after? side.word s).map (bound side)
  bound?.getD <|
    if s = "overdue".toList then overdue
    else if s = "later".toList then later
    else if s = "recurring".toList then recurring
    else unknown

def ofToken (token : Text) : Clause :=
  if Shorthand.isSavedName token then unknown
  else
    match token with
    | '@' :: s => dated s
    | '!' :: word => (kindWords.lookup word).elim unknown fun (k, completed) => kind k completed
    | '#' :: name => if Tag.isName name then tag name else unknown
    | _ => (Text.after? "not:".toList token).elim (term token) excluding

/-- The completion that a clause asks for. -/
def asked? : Clause → Option Bool
  | kind _ completed => completed
  | _ => none

end Clause

namespace Filter

def addUnknown (f : Filter) (token : Text) : Filter := { f with unknown := f.unknown ++ [token] }

def bound? (f : Filter) : Bound → Option Date
  | .before => f.before
  | .after => f.after

def setBound (f : Filter) (date? : Option Date) : Bound → Filter
  | .before => { f with before := date? }
  | .after => { f with after := date? }

/-- The filter with a bound, which `token` stands for.  A second one on the same side is not
understood. -/
def addBound (today : Date) (token : Text) (f : Filter) (side : Bound) (date : Text) :
    Except Fault Filter :=
  if (f.bound? side).isSome then .ok (f.addUnknown token)
  else (Date.ofToken .back today date).map fun
    | some d => f.setBound (some d) side
    | none => f.addUnknown token

/-- The filter with one more clause, which `token` stands for. -/
def add (today : Date) (token : Text) (f : Filter) : Clause → Except Fault Filter
  | .unknown => .ok (f.addUnknown token)
  | .bound side date => f.addBound today token side date
  | .overdue => .ok { f with overdue := true }
  | .later => .ok { f with later := true }
  | .recurring => .ok { f with recurring := true }
  | .withoutTag name => .ok { f with excludedTags := f.excludedTags ++ [name] }
  | .withoutKind k => .ok { f with excludedKinds := f.excludedKinds ++ [k] }
  | .withoutTerm term => .ok { f with excludedTerms := f.excludedTerms ++ [term] }
  | .kind k _ => .ok (if f.kinds.contains k then f else { f with kinds := f.kinds ++ [k] })
  | .tag name => .ok { f with tags := f.tags ++ [name] }
  | .term term => .ok { f with terms := f.terms ++ [term] }

/-- The completion that tokens ask for.  Who asks for open and for completed tasks asks for all. -/
def askedCompletion (tokens : List Text) : Option Bool :=
  match tokens.filterMap fun token => (Clause.ofToken token).asked? with
  | [] => none
  | asked :: more => if more.all (· == asked) then some asked else none

/-- The filter that tokens stand for. -/
def ofTokens (today : Date) (tokens : List Text) : Except Fault Filter :=
  (tokens.foldlM (fun f token => add today token f (Clause.ofToken token)) {}).map fun f =>
    { f with completed := askedCompletion tokens }

def tokens (saved favorites : List (Text × Text)) (query : Text) : List Text :=
  Text.words (Shorthand.expandFavorites favorites (Shorthand.expandSaved saved query))

def ofQuery (today : Date) (saved favorites : List (Text × Text)) (query : Text) :
    Except Fault Filter :=
  ofTokens today (tokens saved favorites query)

/-- Whether a filter holds anything back, completion aside. -/
def hasPredicates (f : Filter) : Bool :=
  !f.kinds.isEmpty || !f.tags.isEmpty || !f.excludedTags.isEmpty || !f.terms.isEmpty ||
    !f.excludedTerms.isEmpty || !f.excludedKinds.isEmpty || f.before.isSome || f.after.isSome ||
    f.overdue || f.later || f.recurring

/-- What to say about the tokens that were not understood. -/
def warning? (f : Filter) : Option Text :=
  if f.unknown.isEmpty then none
  else some ("Unknown filter: ".toList ++ Text.joinWith ", ".toList f.unknown)

end Filter

end DayJournal
