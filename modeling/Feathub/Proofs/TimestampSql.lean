import Feathub.SlidingView

/-!
# TimestampSql — the date format inside the timestamp SQL

A view with a timestamp field and a calendar `timestamp_format` derives that field by the SQL
text `timestampFieldSql` builds: `DATE_FORMAT` of the backtick-quoted event-time column and of
the Java date format as a string literal, its single quotes doubled. This file reads that text
back as Flink SQL's lexer does:

* `lexSql` : code characters, backtick-quoted identifiers and single-quoted string literals,
  where a doubled quote character inside stands for one;
* `lexSql_escapeWith` : a text with its quotes doubled, then the closing quote, lexes to one
  token holding exactly the text, whatever quotes the text holds;
* `lexSql_dateFormat` : the `DATE_FORMAT` text lexes to fixed code around one identifier and one
  literal, and the literal is the format;
* `addTimestampField_dateFormat_literal` : so does the SQL a view's timestamp field is built by.
-/

namespace Feathub

/-! ## SQL's lexical rule for quoted text -/

/-- A lexical token of SQL text: a character of code, a backtick-quoted identifier or a
single-quoted string literal, each quoted body as it decodes. -/
inductive SqlToken where
  | code (c : Char)
  | ident (name : List Char)
  | literal (text : List Char)
  deriving DecidableEq, Repr

/-- Where the lexer is: in code, or inside the quote `q` with the decoded `body` so far. -/
inductive LexMode where
  | code
  | quoted (q : Char) (body : List Char)
  deriving DecidableEq, Repr

/-- The backtick, which quotes identifiers. -/
def backtick : Char := '\x60'

/-- Whether a character opens a quote. -/
def isQuote (c : Char) : Bool := c = '\'' || c = backtick

/-- The token a closing quote gives. -/
def closeQuoted (q : Char) (body : List Char) : SqlToken :=
  if q = '\'' then .literal body else .ident body

/-- The tokens of SQL text, by the quote-doubling rule: inside a quote a doubled quote
character stands for one and a single one closes the quote. `none` is an unclosed quote. -/
def lexSql : LexMode → List Char → Option (List SqlToken)
  | .code, [] => some []
  | .code, c :: rest =>
    if isQuote c then lexSql (.quoted c []) rest else (lexSql .code rest).map (.code c :: ·)
  | .quoted _ _, [] => none
  | .quoted q body, [c] => if c = q then some [closeQuoted q body] else none
  | .quoted q body, c :: c' :: rest =>
    if c = q then
      if c' = q then lexSql (.quoted q (body ++ [q])) rest
      else (lexSql .code (c' :: rest)).map (closeQuoted q body :: ·)
    else lexSql (.quoted q (body ++ [c])) (c' :: rest)

section Lex

variable {q c : Char} {body rest : List Char}

@[simp] theorem lexSql_code_nil : lexSql .code [] = some [] := rfl

theorem lexSql_code_cons (c : Char) (rest : List Char) :
    lexSql .code (c :: rest) =
      if isQuote c then lexSql (.quoted c []) rest else (lexSql .code rest).map (.code c :: ·) :=
  rfl

theorem lexSql_code_quote (h : isQuote c = true) :
    lexSql .code (c :: rest) = lexSql (.quoted c []) rest := by
  rw [lexSql_code_cons, if_pos h]

theorem lexSql_quoted_cons_of_ne (h : c ≠ q) :
    lexSql (.quoted q body) (c :: rest) = lexSql (.quoted q (body ++ [c])) rest := by
  cases rest <;> simp [lexSql, h]

theorem lexSql_quoted_double :
    lexSql (.quoted q body) (q :: q :: rest) = lexSql (.quoted q (body ++ [q])) rest := by
  simp [lexSql]

/-- A single quote character closes the quote when no second one follows. -/
theorem lexSql_quoted_close (h : rest.head? ≠ some q) :
    lexSql (.quoted q body) (q :: rest) = (lexSql .code rest).map (closeQuoted q body :: ·) := by
  cases rest <;> simp_all [lexSql]

/-- Code that opens no quote lexes character by character. -/
theorem lexSql_code_append {cs : List Char} (hcs : ∀ c ∈ cs, isQuote c = false)
    (rest : List Char) :
    lexSql .code (cs ++ rest) = (lexSql .code rest).map (cs.map .code ++ ·) := by
  induction cs with
  | nil => simp
  | cons c cs ih =>
    rw [List.cons_append, lexSql_code_cons, if_neg (by simp [hcs c (.head _)]),
      ih fun c hc => hcs c (.tail _ hc), Option.map_map]
    rfl

end Lex

/-! ## Quote doubling is undone by the lexer -/

/-- `s.replace(q, q + q)`, on the characters of `s`. -/
def escapeWith (q : Char) (s : List Char) : List Char :=
  s.flatMap fun c => if c = q then [q, q] else [c]

@[simp] theorem escapeWith_nil (q : Char) : escapeWith q [] = [] := rfl

@[simp] theorem escapeWith_cons (q c : Char) (s : List Char) :
    escapeWith q (c :: s) = (if c = q then [q, q] else [c]) ++ escapeWith q s := rfl

theorem escapeSingleQuotes_toList (s : String) :
    (escapeSingleQuotes s).toList = escapeWith '\'' s.toList := rfl

theorem escapeWith_of_not_mem {q : Char} {s : List Char} (h : q ∉ s) : escapeWith q s = s := by
  induction s with
  | nil => rfl
  | cons c s ih =>
    simp only [List.mem_cons, not_or] at h
    simp [Ne.symm h.1, ih h.2]

/-- The decoding of a quoted text undoes its quote doubling, for every text: the doubled text
and its closing quote lex to one token that holds exactly the text, and lexing goes on after
the closing quote. -/
theorem lexSql_escapeWith (q : Char) (s : List Char) {rest : List Char}
    (hrest : rest.head? ≠ some q) (body : List Char) :
    lexSql (.quoted q body) (escapeWith q s ++ q :: rest) =
      (lexSql .code rest).map (closeQuoted q (body ++ s) :: ·) := by
  induction s generalizing body with
  | nil => simpa using lexSql_quoted_close hrest
  | cons c s ih =>
    by_cases hc : c = q
    · subst hc
      simp [lexSql_quoted_double, ih]
    · simp only [escapeWith_cons, if_neg hc, List.cons_append, List.nil_append]
      rw [lexSql_quoted_cons_of_ne hc, ih]
      simp

/-! ## The timestamp SQL -/

/-- `DATE_FORMAT` of the identifier `name` and the literal `s`, the quotes of `s` doubled, lexes
to the function name and its parentheses and comma as code, one identifier, and one literal that
holds exactly `s`. -/
theorem lexSql_dateFormat (name s : String) (hname : backtick ∉ name.toList) :
    lexSql .code ("DATE_FORMAT(`" ++ name ++ "`, '" ++ escapeSingleQuotes s ++ "')").toList =
      some ("DATE_FORMAT(".toList.map .code ++ .ident name.toList ::
        ", ".toList.map .code ++ [.literal s.toList, .code ')']) := by
  have htext : ("DATE_FORMAT(`" ++ name ++ "`, '" ++ escapeSingleQuotes s ++ "')").toList =
      "DATE_FORMAT(".toList ++ backtick :: (escapeWith backtick name.toList ++ backtick ::
        (", ".toList ++ '\'' :: (escapeWith '\'' s.toList ++ '\'' :: [')']))) := by
    rw [escapeWith_of_not_mem hname, ← escapeSingleQuotes_toList]
    simp [String.toList, backtick]
  rw [htext, lexSql_code_append (by decide), lexSql_code_quote (show isQuote backtick from rfl),
    lexSql_escapeWith _ _ (by simp [backtick]), Option.map_map, lexSql_code_append (by decide),
    Option.map_map, lexSql_code_quote (show isQuote '\'' from rfl),
    lexSql_escapeWith _ _ (by decide)]
  rfl

/-- The SQL of a calendar-format timestamp field: `DATE_FORMAT` of the event-time column and of
the Java date format as its one string literal, which decodes to exactly that format. -/
theorem addTimestampField_dateFormat_literal (featureView : TableDescriptor) (table : Plan)
    {timestampField : String} (hts : featureView.timestampField = some timestampField)
    (hformat : featureView.timestampFormat ≠ "epoch") :
    ∃ sql, addTimestampField featureView table = .addColumns table sql timestampField ∧
      sql = "DATE_FORMAT(`" ++ eventTimeAttributeName ++ "`, '" ++
        escapeSingleQuotes (toJavaDateFormat featureView.timestampFormat) ++ "')" ∧
      lexSql .code sql.toList =
        some ("DATE_FORMAT(".toList.map .code ++ .ident eventTimeAttributeName.toList ::
          ", ".toList.map .code ++
            [.literal (toJavaDateFormat featureView.timestampFormat).toList, .code ')']) := by
  refine ⟨timestampFieldSql featureView.timestampFormat, by simp only [addTimestampField, hts],
    if_neg hformat, ?_⟩
  rw [timestampFieldSql, if_neg hformat]
  exact lexSql_dateFormat _ _ (by decide)

/-- Clicks by user. -/
def userClicks : TableDescriptor :=
  .featureTable "clicks" ["user_id", "ts"] (some "ts") "epoch"

/-- Clicks per user over ten minutes, every minute, stamped in ISO form: the Java pattern
quotes its literal `T`. -/
def isoClickCounts : TableDescriptor :=
  .slidingFeatureView "click_counts" userClicks
    [⟨"clicks", ⟨"INT64"⟩, .slidingWindow ⟨"1", "COUNT", ["user_id"], 600, 60, none, none⟩,
      none, []⟩]
    false (some "window_time") "%Y-%m-%d'T'%H:%M" false

theorem addTimestampField_dateFormat_literal_isoClickCounts :
    toJavaDateFormat isoClickCounts.timestampFormat = "yyyy-MM-dd'T'HH:mm" ∧
    isoClickCounts.timestampField = some "window_time" ∧
    isoClickCounts.timestampFormat ≠ "epoch" ∧
    ∃ sql, addTimestampField isoClickCounts (.source userClicks) =
        .addColumns (.source userClicks) sql "window_time" ∧
      sql = "DATE_FORMAT(`" ++ eventTimeAttributeName ++ "`, '" ++
        escapeSingleQuotes (toJavaDateFormat isoClickCounts.timestampFormat) ++ "')" ∧
      lexSql .code sql.toList =
        some ("DATE_FORMAT(".toList.map .code ++ .ident eventTimeAttributeName.toList ::
          ", ".toList.map .code ++
            [.literal (toJavaDateFormat isoClickCounts.timestampFormat).toList, .code ')']) :=
  ⟨rfl, rfl, by decide, addTimestampField_dateFormat_literal isoClickCounts _ rfl (by decide)⟩

end Feathub
