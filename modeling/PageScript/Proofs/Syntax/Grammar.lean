import PageScript.Node.Reader

/-!
The grammar of expressions, said apart from the reading: which tokens stand for which tree. Levels 1
to 6 are those of the operators between two operands, 7 is that of an operator before its operand,
and 8 that of everything else.
-/
namespace PageScript.Reader

/-- What tokens may stand for: an expression that binds at least as tightly as a level, items with
commas between them, or the properties of an object. -/
inductive Phrase where
  | expr (level : Nat) (node : Node)
  | items (nodes : List Node)
  | properties (entries : List (String × Node))

/-- The tree of a token that is an expression by itself. -/
def leaf? (t : Token) : Option Node :=
  match t.kind with
  | .trueWord => some (.literal (.bool true) t.line)
  | .falseWord => some (.literal (.bool false) t.line)
  | .number => (numberValue? t.text).map fun n => .literal (.number n) t.line
  | .string => some (.literal (.string t.text) t.line)
  | .identifier => some (.identifier t.text t.line)
  | _ => none

/-- The grammar of expressions. An operator between two operands groups to the left: its left
operand may be of its own level, its right one binds tighter. -/
inductive Derives : Phrase → List Token → Prop where
  | leaf {level : Nat} {t : Token} {node : Node} (h : leaf? t = some node) :
    Derives (.expr level node) [t]
  | template {level : Nat} {opening name closing : Token} (ho : opening.kind = .templateStart)
    (hn : name.kind = .identifier) (hc : closing.kind = .templateEnd) :
    Derives (.expr level (.template name.text opening.line)) [opening, name, closing]
  | group {level : Nat} {node : Node} {opening closing : Token} {ts : List Token}
    (ho : opening.kind = .leftParen) (h : Derives (.expr 1 node) ts)
    (hc : closing.kind = .rightParen) : Derives (.expr level node) (opening :: (ts ++ [closing]))
  | array {level : Nat} {nodes : List Node} {opening closing : Token} {ts : List Token}
    (ho : opening.kind = .leftBracket) (h : Derives (.items nodes) ts)
    (hc : closing.kind = .rightBracket) :
    Derives (.expr level (.array nodes opening.line)) (opening :: (ts ++ [closing]))
  | object {level : Nat} {entries : List (String × Node)} {opening closing : Token}
    {ts : List Token} (ho : opening.kind = .leftBrace) (h : Derives (.properties entries) ts)
    (hc : closing.kind = .rightBrace) :
    Derives (.expr level (.object entries opening.line)) (opening :: (ts ++ [closing]))
  | call {level : Nat} {callee : Node} {args : List Node} {opening closing : Token}
    {ts us : List Token} (hlevel : level ≤ 8) (hcallee : Derives (.expr 8 callee) ts)
    (ho : opening.kind = .leftParen) (hargs : Derives (.items args) us)
    (hc : closing.kind = .rightParen) :
    Derives (.expr level (.call callee args opening.line)) (ts ++ opening :: (us ++ [closing]))
  | unary {level : Nat} {operand : Node} {sign : Token} {ts : List Token} (hlevel : level ≤ 7)
    (hsign : sign.kind = .notOp ∨ sign.kind = .minus) (h : Derives (.expr 7 operand) ts) :
    Derives (.expr level (.unary sign.text operand sign.line)) (sign :: ts)
  | binary {level held : Nat} {left right : Node} {sign : Token} {ts us : List Token}
    (hlevel : level ≤ held) (hleft : Derives (.expr held left) ts)
    (hsign : level? sign.kind = some held) (hright : Derives (.expr (held + 1) right) us) :
    Derives (.expr level (.binary sign.text left right sign.line)) (ts ++ sign :: us)
  | noItems : Derives (.items []) []
  | lastItem {node : Node} {ts : List Token} (h : Derives (.expr 1 node) ts) :
    Derives (.items [node]) ts
  | moreItems {node next : Node} {nodes : List Node} {comma : Token} {ts us : List Token}
    (h : Derives (.expr 1 node) ts) (hcomma : comma.kind = .comma)
    (hmore : Derives (.items (next :: nodes)) us) :
    Derives (.items (node :: next :: nodes)) (ts ++ comma :: us)
  | noProperties : Derives (.properties []) []
  | lastProperty {node : Node} {key colon : Token} {ts : List Token}
    (hkey : key.kind = .identifier ∨ key.kind = .string) (hcolon : colon.kind = .colon)
    (h : Derives (.expr 1 node) ts) : Derives (.properties [(key.text, node)]) (key :: colon :: ts)
  | moreProperties {node : Node} {next : String × Node} {entries : List (String × Node)}
    {key colon comma : Token} {ts us : List Token}
    (hkey : key.kind = .identifier ∨ key.kind = .string) (hcolon : colon.kind = .colon)
    (h : Derives (.expr 1 node) ts) (hcomma : comma.kind = .comma)
    (hmore : Derives (.properties (next :: entries)) us) :
    Derives (.properties ((key.text, node) :: next :: entries))
      (key :: colon :: (ts ++ comma :: us))

/-- No operator between operands binds tighter than a product. -/
theorem level?_le {kind : TokenKind} {level : Nat} (h : level? kind = some level) : level ≤ 6 := by
  have hall : ∀ kind ∈ TokenKind.all, ∀ level ∈ level? kind, level ≤ 6 := by decide
  exact hall kind (TokenKind.mem_all kind) level h

/-- What binds tightly may stand wherever something looser may. -/
theorem Derives.mono {level level' : Nat} {node : Node} {ts : List Token}
    (h : Derives (.expr level node) ts) (hle : level' ≤ level) :
    Derives (.expr level' node) ts := by
  cases h with
  | leaf h => exact .leaf h
  | template ho hn hc => exact .template ho hn hc
  | group ho h hc => exact .group ho h hc
  | array ho h hc => exact .array ho h hc
  | object ho h hc => exact .object ho h hc
  | call hlevel hcallee ho hargs hc => exact .call (Nat.le_trans hle hlevel) hcallee ho hargs hc
  | unary hlevel hsign h => exact .unary (Nat.le_trans hle hlevel) hsign h
  | binary hlevel hleft hsign hright =>
    exact .binary (Nat.le_trans hle hlevel) hleft hsign hright

/-- The signs that close a bracket begin no expression. -/
def closers : List TokenKind := [.rightParen, .rightBracket, .rightBrace]

/-- What is not empty does not begin with the end of a bracket. -/
theorem Derives.first {phrase : Phrase} {ts : List Token} (h : Derives phrase ts)
    (hitems : phrase ≠ .items []) (hproperties : phrase ≠ .properties []) :
    ∃ t rest, ts = t :: rest ∧ t.kind ∉ closers := by
  induction h with
  | @leaf level t node h =>
    refine ⟨t, [], rfl, ?_⟩
    intro hmem
    simp only [closers, List.mem_cons, List.not_mem_nil, or_false] at hmem
    rcases hmem with hk | hk | hk <;> simp [leaf?, hk] at h
  | template ho | group ho | array ho | object ho => exact ⟨_, _, rfl, by simp [ho, closers]⟩
  | call hlevel hcallee ho hargs hc ihcallee =>
    obtain ⟨t, rest, rfl, hfirst⟩ := ihcallee (by simp) (by simp)
    exact ⟨t, _, rfl, hfirst⟩
  | unary hlevel hsign => exact ⟨_, _, rfl, by rcases hsign with hk | hk <;> simp [hk, closers]⟩
  | binary hlevel hleft hsign hright ihleft =>
    obtain ⟨t, rest, rfl, hfirst⟩ := ihleft (by simp) (by simp)
    exact ⟨t, _, rfl, hfirst⟩
  | noItems => exact absurd rfl hitems
  | lastItem h ih => exact ih (by simp) (by simp)
  | moreItems h hcomma hmore ih =>
    obtain ⟨t, rest, rfl, hfirst⟩ := ih (by simp) (by simp)
    exact ⟨t, _, rfl, hfirst⟩
  | noProperties => exact absurd rfl hproperties
  | lastProperty hkey | moreProperties hkey =>
    exact ⟨_, _, rfl, by rcases hkey with hk | hk <;> simp [hk, closers]⟩

end PageScript.Reader
