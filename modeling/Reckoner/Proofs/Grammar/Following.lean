import Reckoner.Proofs.Grammar.FirstEnd
import Reckoner.Proofs.Grammar.Watched

/-!
# The Watched Parser Follows the Reading

On every list of tokens the watched parser comes to what the reading of the tokens comes to, and
everything that it writes down is sound, however it ends.  The reading may be one of other tokens,
as long as they are the same up to the first end.

One invariant carries this through all functions: the negations that are open have each taken a
token, up to the one that is being entered, and a tree is not higher than the number of tokens that
were taken for it, nor than the limit.  Where an end is among the tokens no number is greater than
their number, and where there is none the limit still bounds the recursion.
-/

namespace Reckoner

theorem Expr.depth_pos (expr : Expr) : 0 < expr.depth := by
  cases expr <;> rw [depth] <;> omega

namespace Watched

open Grammar

/-! ## Places -/

/-- The cursor of a reading stands where the parser does: the same tokens are ahead up to the first
end, and none of those that were taken is an end. -/
structure At (patience : Nat) (tokens : List Token) (c : Cursor) : Prop where
  same : upToEnd (tokens.drop (min c.taken (tokens.length - 1))) = upToEnd c.tokens
  taken : .finish ∉ (tokens.take c.taken).map Token.lexeme
  ahead : c.ahead.length < patience

theorem taken_advance {c : Cursor} (hfinish : c.current.lexeme ≠ .finish) :
    c.advance.taken = c.taken + 1 := by
  rw [Cursor.advance_eq hfinish]
  split <;> rfl

theorem length_ahead_advance_le (c : Cursor) : c.advance.ahead.length ≤ c.ahead.length := by
  by_cases hfinish : c.current.lexeme = .finish
  · exact Nat.le_of_eq (by rw [Cursor.advance, if_pos hfinish])
  · rw [Cursor.advance_eq hfinish]
    split
    case h_1 => exact Nat.le_refl _
    case h_2 next rest hahead =>
      rw [hahead]
      exact Nat.le_succ _

namespace At

variable {patience : Nat} {tokens : List Token} {c : Cursor} (h : At patience tokens c)

include h

/-- The tokens from where the parser is on. -/
theorem exists_drop_eq : ∃ rest,
    tokens.drop (min c.taken (tokens.length - 1)) = c.current :: rest ∧
      c.SameToEnd ⟨c.current, rest, c.taken⟩ := by
  have hsame := h.same
  obtain ⟨others, hcons⟩ := exists_upToEnd_cons c.current c.ahead
  cases htokens : tokens.drop (min c.taken (tokens.length - 1)) with
  | nil =>
    rw [htokens, Cursor.tokens, hcons] at hsame
    cases hsame
  | cons first rest =>
    rw [htokens] at hsame
    have hcursor : c.SameToEnd ⟨first, rest, c.taken⟩ := hsame.symm
    obtain rfl : first = c.current := hcursor.current_eq
    exact ⟨rest, rfl, hcursor⟩

theorem getElem?_eq : tokens[min c.taken (tokens.length - 1)]? = some c.current := by
  obtain ⟨rest, hdrop, -⟩ := h.exists_drop_eq
  exact Checked.getElem?_of_drop_eq hdrop

theorem length_pos : 0 < tokens.length := by
  have hlt := (List.getElem?_eq_some_iff.mp h.getElem?_eq).1
  exact Nat.zero_lt_of_lt hlt

/-- Where there is an end, it has not been passed. -/
theorem taken_lt (hfinish : .finish ∈ tokens.map Token.lexeme) : c.taken < tokens.length := by
  apply Nat.lt_of_not_le
  intro hle
  apply h.taken
  rw [List.take_of_length_le hle]
  exact hfinish

theorem notPassed : NotPassed tokens c.taken := by
  intro k hk
  obtain ⟨hlt, hfinish, -⟩ := List.findIdx?_eq_some_iff_getElem.mp hk
  apply Nat.le_of_not_lt
  intro hpassed
  apply h.taken
  rw [List.mem_map]
  refine ⟨tokens[k], ?_, of_decide_eq_true hfinish⟩
  rw [List.mem_take_iff_getElem]
  exact ⟨k, by omega, rfl⟩

theorem advance (hfinish : c.current.lexeme ≠ .finish) : At patience tokens c.advance := by
  obtain ⟨rest, hdrop, hsame⟩ := h.exists_drop_eq
  have hlength := congrArg List.length hdrop
  rw [List.length_drop, List.length_cons] at hlength
  constructor
  · have hadvance : upToEnd c.advance.tokens =
        upToEnd (Cursor.advance ⟨c.current, rest, c.taken⟩).tokens := hsame.advance
    rw [taken_advance hfinish, hadvance,
      Cursor.tokens_advance (c := ⟨c.current, rest, c.taken⟩) hfinish]
    dsimp only
    by_cases hrest : rest = []
    · rw [hrest, List.length_nil] at hlength
      have hmin : min (c.taken + 1) (tokens.length - 1) = min c.taken (tokens.length - 1) := by
        omega
      rw [if_pos hrest, hmin, hdrop]
      rfl
    · have hpos := List.length_pos_iff.mpr hrest
      have hmin : min (c.taken + 1) (tokens.length - 1) = min c.taken (tokens.length - 1) + 1 := by
        omega
      rw [if_neg hrest, hmin, Checked.drop_succ_of_drop_eq hdrop]
  · rw [taken_advance hfinish, List.take_add_one, List.map_append, List.mem_append, not_or]
    refine ⟨h.taken, fun hmem ↦ ?_⟩
    obtain ⟨token, htoken, hlexeme⟩ := List.mem_map.mp hmem
    rw [Option.mem_toList, List.getElem?_eq_some_iff] at htoken
    obtain ⟨hlt, htoken⟩ := htoken
    have hmin : min c.taken (tokens.length - 1) = c.taken := by omega
    have hcurrent := h.getElem?_eq
    rw [hmin, List.getElem?_eq_getElem hlt, htoken, Option.some.injEq] at hcurrent
    exact hfinish (hcurrent ▸ hlexeme)
  · exact Nat.lt_of_le_of_lt (length_ahead_advance_le c) h.ahead

end At

/-- The sums are found that the parser needs, which are not greater than the number of the tokens
where an end is among them. -/
def AddsUpTo (add : Nat → Nat → Checked Nat) (tokens : List Token) : Prop :=
  ∀ a b, (.finish ∈ tokens.map Token.lexeme → a + b ≤ tokens.length) → add a b = .ok (a + b)

section

variable {α β : Type} {add : Nat → Nat → Checked Nat} {patience limit depth : Nat}
  {tokens : List Token} {c : Cursor} {events : List Event} (hc : At patience tokens c)

include hc

theorem current_bind {f : Token → Parser β} :
    (current tokens >>= f) ⟨⟨c.taken, depth⟩, events⟩ = f c.current ⟨⟨c.taken, depth⟩, events⟩ := by
  rw [current, bind_assoc, step_bind (Checked.sub_eq_ok hc.length_pos), bind_assoc, get_bind]
  exact step_bind (Checked.read_eq_ok hc.getElem?_eq)

theorem advance_bind {f : Unit → Parser β} (hadd : AddsUpTo add tokens)
    (hfinish : c.current.lexeme ≠ .finish) :
    (advance add tokens >>= f) ⟨⟨c.taken, depth⟩, events⟩ =
      f () ⟨⟨c.advance.taken, depth⟩, events⟩ := by
  apply bind_of_ok
  rw [advance, current_bind hc, if_neg hfinish, get_bind, step_bind (hadd _ _ hc.taken_lt),
    taken_advance hfinish]
  rfl

theorem unexpected_eq (wanted : Wanted) :
    (unexpected tokens wanted : Parser α) ⟨⟨c.taken, depth⟩, events⟩ =
      .ok (.error (c.unexpected wanted), ⟨⟨c.taken, depth⟩, events⟩) := by
  rw [unexpected, current_bind hc]
  rfl

end

/-! ## Following a reading -/

/-- The parser does not break off, and what comes of it is what comes of the reading: something that
is `good`, at the place of the cursor and with as many open negations as there were, or the same
fault with no fewer.  All that has happened is sound. -/
inductive Follows {α β : Type} (patience : Nat) (tokens : List Token) (limit depth : Nat)
    (good : α → β → Cursor → Prop) :
    Checked (Except Fault α × State) → Except Fault (β × Cursor) → Prop
  | ok {a : α} {b : β} {c : Cursor} {events : List Event} (hc : At patience tokens c)
    (hevents : AllSound tokens limit events) (hgood : good a b c) :
    Follows patience tokens limit depth good (.ok (.ok a, ⟨⟨c.taken, depth⟩, events⟩)) (.ok (b, c))
  | error {fault : Fault} {s : State} (hdepth : depth ≤ s.stand.depth)
    (hevents : AllSound tokens limit s.events) :
    Follows patience tokens limit depth good (.ok (.error fault, s)) (.error fault)

namespace Follows

variable {α β α' β' : Type} {add : Nat → Nat → Checked Nat} {patience limit depth : Nat}
  {tokens : List Token} {c : Cursor} {good : α → β → Cursor → Prop}
  {good' : α' → β' → Cursor → Prop} {m : Parser α} {s : State} {r : Except Fault (β × Cursor)}
  {events : List Event}

theorem bind {f : α → Parser α'} {g : β × Cursor → Except Fault (β' × Cursor)}
    (h : Follows patience tokens limit depth good (m s) r)
    (hnext : ∀ a b c events, r = .ok (b, c) → At patience tokens c →
      AllSound tokens limit events → good a b c →
      Follows patience tokens limit depth good' (f a ⟨⟨c.taken, depth⟩, events⟩) (g (b, c))) :
    Follows patience tokens limit depth good' ((m >>= f) s) (r >>= g) := by
  generalize hm : m s = outcome at h
  cases h with
  | ok hc hevents hgood =>
    rw [bind_of_ok hm]
    exact hnext _ _ _ _ rfl hc hevents hgood
  | error hdepth hevents =>
    rw [bind_of_error hm]
    exact .error hdepth hevents

theorem mono {good' : α → β → Cursor → Prop} {x : Checked (Except Fault α × State)}
    (h : Follows patience tokens limit depth good x r)
    (hgood : ∀ {a b c}, good a b c → good' a b c) :
    Follows patience tokens limit depth good' x r := by
  cases h with
  | ok hc hevents h => exact .ok hc hevents (hgood h)
  | error hdepth hevents => exact .error hdepth hevents

/-- The reading does something more with its value. -/
theorem map {good' : α → β' → Cursor → Prop} {x : Checked (Except Fault α × State)} {g : β → β'}
    (h : Follows patience tokens limit depth good x r)
    (hgood : ∀ {a b c}, good a b c → good' a (g b) c) :
    Follows patience tokens limit depth good' x (r >>= fun (b, c) ↦ .ok (g b, c)) := by
  cases h with
  | ok hc hevents h => exact .ok hc hevents (hgood h)
  | error hdepth hevents => exact .error hdepth hevents

/-- Both look for a mark here and move past it if they find it. -/
theorem branch {mark : Lexeme} {f : Unit → Parser α'} {g : Parser α'}
    {r r' : Except Fault (β' × Cursor)} (hadd : AddsUpTo add tokens) (hc : At patience tokens c)
    (hmark : mark ≠ .finish)
    (hthere : c.current.lexeme = mark → c.advance.taken = c.taken + 1 →
      At patience tokens c.advance →
      Follows patience tokens limit depth good' (f () ⟨⟨c.advance.taken, depth⟩, events⟩) r)
    (hother : Follows patience tokens limit depth good' (g ⟨⟨c.taken, depth⟩, events⟩) r') :
    Follows patience tokens limit depth good'
      ((if c.current.lexeme = mark then Watched.advance add tokens >>= f else g)
        ⟨⟨c.taken, depth⟩, events⟩)
      (if c.current.lexeme = mark then r else r') := by
  by_cases hlexeme : c.current.lexeme = mark
  · have hfinish : c.current.lexeme ≠ .finish := hlexeme ▸ hmark
    rw [if_pos hlexeme, if_pos hlexeme, advance_bind hc hadd hfinish]
    exact hthere hlexeme (taken_advance hfinish) (hc.advance hfinish)
  · rw [if_neg hlexeme, if_neg hlexeme]
    exact hother

theorem passClosing {wanted : Wanted} {f : Unit → Parser α'}
    {g : Cursor → Except Fault (β' × Cursor)} (hadd : AddsUpTo add tokens)
    (hc : At patience tokens c) (hevents : AllSound tokens limit events)
    (h : c.advance.taken = c.taken + 1 → At patience tokens c.advance →
      Follows patience tokens limit depth good' (f () ⟨⟨c.advance.taken, depth⟩, events⟩)
        (g c.advance)) :
    Follows patience tokens limit depth good'
      ((Watched.passClosing add tokens wanted >>= f) ⟨⟨c.taken, depth⟩, events⟩)
      (c.passClosing wanted >>= g) := by
  rw [Watched.passClosing, bind_assoc, current_bind hc, Cursor.passClosing]
  by_cases hclosing : c.current.lexeme = .closing
  · have hfinish : c.current.lexeme ≠ .finish := by simp [hclosing]
    rw [if_pos hclosing, if_pos hclosing, advance_bind hc hadd hfinish]
    exact h (taken_advance hfinish) (hc.advance hfinish)
  · rw [if_neg hclosing, if_neg hclosing, bind_of_error (unexpected_eq hc wanted)]
    exact .error (Nat.le_refl depth) hevents

end Follows

/-! ## Trees -/

/-- The tree of a node with its height, which is neither above the limit nor greater than the number
of tokens that were taken for it. -/
structure SameTree (limit start : Nat) (tree : Counted) (node : Node) (c : Cursor) : Prop where
  expr_eq : tree.expr = node.expr
  height_eq : tree.height = node.height
  height_le : tree.height ≤ limit
  start_le : start + tree.height ≤ c.taken

section

variable {add : Nat → Nat → Checked Nat} {patience limit start depth : Nat} {tokens : List Token}
  {c : Cursor} {tree : Counted} {node : Node} {events : List Event}

theorem SameTree.sound (h : SameTree limit start tree node c) : tree.Sound limit where
  height_eq := by rw [h.height_eq, node.height_eq, h.expr_eq]
  height_le := h.height_le

theorem SameTree.height_pos (h : SameTree limit start tree node c) : 0 < tree.height := by
  rw [h.sound.height_eq]
  exact tree.expr.depth_pos

theorem SameTree.mono {start' : Nat} (h : SameTree limit start' tree node c)
    (hstart : start ≤ start') : SameTree limit start tree node c where
  expr_eq := h.expr_eq
  height_eq := h.height_eq
  height_le := h.height_le
  start_le := Nat.le_trans (Nat.add_le_add_right hstart _) h.start_le

/-- A tree that is given back from where its call began. -/
theorem SameTree.returned {entry : Cursor} (hc : At patience tokens c)
    (h : SameTree limit entry.taken tree node c) :
    Returned tokens limit ⟨entry.taken, depth⟩ ⟨c.taken, depth⟩ tree where
  sound := h.sound
  depth_eq := rfl
  position_lt := Nat.lt_of_lt_of_le (Nat.lt_add_of_pos_right h.height_pos) h.start_le
  notPassed := hc.notPassed
  height_le := Nat.le_sub_of_add_le' h.start_le

/-- What follows the making of a tree that is high enough above what is below it. -/
theorem Follows.build {α β : Type} {expr : Expr} {below : Nat} {good : α → β → Cursor → Prop}
    {f : Counted → Parser α} {g : Node → Except Fault (β × Cursor)} (hadd : AddsUpTo add tokens)
    (hc : At patience tokens c) (hevents : AllSound tokens limit events) (hexpr : expr = node.expr)
    (hheight : node.height = 1 + below) (hstart : start + (1 + below) ≤ c.taken)
    (hnext : ∀ tree events, SameTree limit start tree node c → AllSound tokens limit events →
      Follows patience tokens limit depth good (f tree ⟨⟨c.taken, depth⟩, events⟩) (g node)) :
    Follows patience tokens limit depth good
      ((Watched.build add limit expr below >>= f) ⟨⟨c.taken, depth⟩, events⟩)
      (node.within limit >>= g) := by
  have hsum : add 1 below = .ok (1 + below) := by
    refine hadd _ _ fun hfinish ↦ ?_
    have htaken := hc.taken_lt hfinish
    omega
  rw [Watched.build, bind_assoc, step_bind hsum, bind_assoc, checkHeight, Node.within, hheight]
  by_cases hlimit : 1 + below > limit
  · rw [if_pos hlimit, if_pos hlimit]
    exact .error (Nat.le_refl depth) hevents
  · have htree : SameTree limit start ⟨expr, 1 + below⟩ node c :=
      ⟨hexpr, hheight.symm, Nat.le_of_not_lt hlimit, hstart⟩
    rw [if_neg hlimit, if_neg hlimit]
    exact hnext _ _ htree (hevents.cons htree.sound)

/-- The last tree that is made. -/
theorem Follows.build_last {expr : Expr} {below : Nat} (hadd : AddsUpTo add tokens)
    (hc : At patience tokens c) (hevents : AllSound tokens limit events) (hexpr : expr = node.expr)
    (hheight : node.height = 1 + below) (hstart : start + (1 + below) ≤ c.taken) :
    Follows patience tokens limit depth (SameTree limit start)
      (Watched.build add limit expr below ⟨⟨c.taken, depth⟩, events⟩)
      (node.within limit >>= fun node ↦ .ok (node, c)) := by
  rw [← bind_pure (Watched.build add limit expr below)]
  exact .build hadd hc hevents hexpr hheight hstart fun _ _ htree hevents ↦ .ok hc hevents htree

theorem Follows.make (hevents : AllSound tokens limit events) (hc : At patience tokens c)
    (hheight : node.height = 1) (hlimit : 0 < limit) (hstart : start + 1 ≤ c.taken) :
    Follows patience tokens limit depth (SameTree limit start)
      (Watched.make node.expr 1 ⟨⟨c.taken, depth⟩, events⟩) (.ok (node, c)) := by
  have htree : SameTree limit start ⟨node.expr, 1⟩ node c := ⟨rfl, hheight.symm, hlimit, hstart⟩
  exact .ok hc (hevents.cons htree.sound) htree

/-- A call writes down how it is entered and what it gives back. -/
theorem Follows.call {level : Level} {m : Parser Counted} {r : Except Fault (Node × Cursor)}
    (hdepth : depth ≤ c.taken + 1) (hlimit : depth ≤ limit) (hevents : AllSound tokens limit events)
    (h : ∀ events, AllSound tokens limit events →
      Follows patience tokens limit depth (SameTree limit c.taken)
        (m ⟨⟨c.taken, depth⟩, events⟩) r) :
    Follows patience tokens limit depth (SameTree limit c.taken)
      (Watched.call level m ⟨⟨c.taken, depth⟩, events⟩) r := by
  have hcalled : (Event.called level ⟨c.taken, depth⟩).Sound tokens limit := ⟨hdepth, hlimit⟩
  rw [Watched.call, get_bind, record_bind, ← bind_pure r]
  refine (h _ (hevents.cons hcalled)).bind ?_
  intro tree node c' events' _ hc' hevents' htree
  rw [get_bind, record_bind]
  exact .ok hc' (hevents'.cons (htree.returned hc')) htree

section

variable {inner : Parser Counted} (hadd : AddsUpTo add tokens) (hc : At patience tokens c)
  (hdepth : depth ≤ c.taken)

include hadd hc hdepth

theorem add_depth : add depth 1 = .ok (depth + 1) := by
  refine hadd _ _ fun hfinish ↦ ?_
  have htaken := hc.taken_lt hfinish
  omega

/-- Where as many negations are open as the limit admits, one more is one too many. -/
theorem Follows.counted_of_deep {good : Counted → Node → Cursor → Prop}
    (hevents : AllSound tokens limit events) (hlimit : limit ≤ depth) :
    Follows patience tokens limit depth good
      (Watched.counted add limit inner ⟨⟨c.taken, depth⟩, events⟩) (.error (.tooDeep limit)) := by
  rw [Watched.counted, get_bind, step_bind (add_depth hadd hc hdepth), set_bind, checkHeight,
    if_pos (Nat.lt_succ_of_le hlimit)]
  exact .error (Nat.le_succ depth) hevents

/-- A negation is counted as open while it is read. -/
theorem Follows.counted {good : Counted → Node → Cursor → Prop} {r : Except Fault (Node × Cursor)}
    (hevents : AllSound tokens limit events) (hlimit : depth < limit)
    (h : ∀ events, AllSound tokens limit events →
      Follows patience tokens limit (depth + 1) good (inner ⟨⟨c.taken, depth + 1⟩, events⟩) r) :
    Follows patience tokens limit depth good
      (Watched.counted add limit inner ⟨⟨c.taken, depth⟩, events⟩) r := by
  have hadmitted : (Event.admitted ⟨c.taken, depth + 1⟩).Sound tokens limit :=
    ⟨Nat.succ_le_succ hdepth, hlimit⟩
  have hinner := h _ (hevents.cons hadmitted)
  rw [Watched.counted, get_bind, step_bind (add_depth hadd hc hdepth), set_bind, checkHeight,
    if_neg (Nat.not_lt_of_le hlimit), pure_bind, record_bind]
  generalize houtcome : inner _ = outcome at hinner
  cases hinner with
  | ok hc' hevents' hgood =>
    rw [lift_run_bind houtcome, get_bind, step_bind (Checked.sub_eq_ok (Nat.le_add_left 1 depth)),
      set_bind]
    exact .ok hc' hevents' hgood
  | error hdepth' hevents' =>
    rw [lift_run_bind houtcome, get_bind,
      step_bind (Checked.sub_eq_ok (Nat.le_trans (Nat.le_add_left 1 depth) hdepth')), set_bind]
    exact .error (Nat.le_sub_one_of_lt hdepth') hevents'

end

end

/-! ## The functions -/

/-- The parser follows the reading from wherever no more negations are open than tokens have been
taken, and `entered` more. -/
def Reads (patience : Nat) (tokens : List Token) (limit entered depth : Nat) (m : Parser Counted)
    (reading : Reading Node) : Prop :=
  ∀ c events, At patience tokens c → AllSound tokens limit events → depth ≤ c.taken + entered →
    Follows patience tokens limit depth (SameTree limit c.taken) (m ⟨⟨c.taken, depth⟩, events⟩)
      (reading c)

/-- The links of a chain, over a way to read negations. -/
def Chain.reading (limit : Nat) (negation : Reading Node) : Chain → Reading Node
  | sum => Reading.chained limit Reading.productOperator? negation
  | product => negation

theorem Chain.isOperator {kind : Chain} {mark : Lexeme} {operator : Operator}
    (h : kind.operator? mark = some operator) : Place.isOperator mark := by
  cases kind with
  | sum => exact sum_leftRecursive.isOperator h
  | product => exact product_leftRecursive.isOperator h

/-- Each link of a chain that is read, with the operator before it, leaves fewer tokens ahead. -/
theorem Chain.length_ahead_lt {limit budget : Nat} {kind : Chain} {operator : Operator}
    {right : Node} {c d : Cursor} (hbudget : budget ≤ limit)
    (hmark : kind.operator? c.current.lexeme = some operator)
    (hlink : kind.reading limit (Reading.negation limit budget) c.advance = .ok (right, d)) :
    d.ahead.length < c.ahead.length := by
  have hisOperator := Chain.isOperator hmark
  have hreads := negation_outcome hbudget
  cases kind with
  | sum =>
    have houtcome := chained_outcome product_leftRecursive hbudget hreads c.advance
    rw [← Chain.reading, hlink] at houtcome
    cases houtcome with
    | ok hpath hread => exact Grammar.length_ahead_lt hisOperator hpath hread.settled
  | product =>
    have houtcome := hreads c.advance
    rw [Chain.reading] at hlink
    rw [hlink] at houtcome
    cases houtcome with
    | ok hpath hread => exact Grammar.length_ahead_lt hisOperator hpath hread.settled

/-- So does each argument with the comma after it. -/
theorem sum_length_ahead_lt {limit budget : Nat} {node : Node} {c d : Cursor}
    (hbudget : budget ≤ limit)
    (hsum : Reading.sum limit (Reading.negation limit budget) c = .ok (node, d))
    (hcomma : d.current.lexeme = .comma) : d.advance.ahead.length < c.ahead.length := by
  have houtcome := sum_outcome hbudget (negation_outcome hbudget) c
  rw [hsum] at houtcome
  cases houtcome with
  | ok hpath hread => exact length_ahead_comma_lt hpath (hcomma ▸ hread.settled) hcomma

section

variable {add : Nat → Nat → Checked Nat} {patience limit depth budget : Nat} {tokens : List Token}
  {c : Cursor} {events : List Event} (hadd : AddsUpTo add tokens) (hbudget : depth + budget = limit)

include hadd hbudget

theorem chain_follows {kind : Chain} {link : Parser Counted}
    (hlink : Reads patience tokens limit 0 depth link
      (kind.reading limit (Reading.negation limit budget)))
    {start rounds rounds' : Nat} {left : Counted} {left' : Node} (hc : At patience tokens c)
    (hevents : AllSound tokens limit events) (hdepth : depth ≤ c.taken)
    (hleft : SameTree limit start left left' c) (hrounds : c.ahead.length < rounds)
    (hrounds' : c.ahead.length < rounds') :
    Follows patience tokens limit depth (SameTree limit start)
      (chain add tokens limit kind link rounds left ⟨⟨c.taken, depth⟩, events⟩)
      (Reading.chain limit kind.operator? (kind.reading limit (Reading.negation limit budget))
        rounds' left' c) := by
  induction rounds generalizing rounds' c events left left' with
  | zero => omega
  | succ rounds ih =>
    obtain ⟨rounds', rfl⟩ := Nat.exists_eq_add_one_of_ne_zero (Nat.ne_zero_of_lt hrounds')
    rw [chain, current_bind hc, Reading.chain]
    cases hmark : kind.operator? c.current.lexeme with
    | none => exact .ok hc hevents hleft
    | some operator =>
      have hfinish : c.current.lexeme ≠ .finish := by
        intro hfinish
        have hisOperator := Chain.isOperator hmark
        rw [hfinish] at hisOperator
        cases hisOperator
      have htaken := taken_advance hfinish
      dsimp only
      rw [advance_bind hc hadd hfinish]
      refine (hlink _ _ (hc.advance hfinish) hevents (by omega)).bind ?_
      intro right right' c' events' hread hc' hevents' hright
      have hahead := Chain.length_ahead_lt (by omega) hmark hread
      have hexpr : Expr.binary operator left.expr right.expr =
          (Node.binary operator left' right').expr := by
        rw [hleft.expr_eq, hright.expr_eq]
        rfl
      have hheight : (Node.binary operator left' right').height =
          1 + max left.height right.height := by
        rw [hleft.height_eq, hright.height_eq]
        rfl
      have hbefore := hleft.start_le
      have hafter := hright.start_le
      have hstart : start + (1 + max left.height right.height) ≤ c'.taken := by omega
      refine .build hadd hc' hevents' hexpr hheight hstart ?_
      intro tree events'' htree hevents''
      exact ih hc' hevents'' (by omega) htree (by omega) (by omega)

theorem Reads.chained {kind : Chain} {link : Parser Counted}
    (hlink : Reads patience tokens limit 0 depth link
      (kind.reading limit (Reading.negation limit budget))) :
    Reads patience tokens limit 0 depth (chained add patience tokens limit kind link)
      (Reading.chained limit kind.operator?
        (kind.reading limit (Reading.negation limit budget))) := by
  intro c events hc hevents hdepth
  refine .call (by omega) (by omega) hevents fun events hevents ↦ ?_
  refine (hlink c events hc hevents hdepth).bind ?_
  intro first first' c' events' _ hc' hevents' hfirst
  have hstart := hfirst.start_le
  exact chain_follows hadd hbudget hlink hc' hevents' (by omega) hfirst hc'.ahead
    (Nat.lt_succ_self _)

variable {negation : Parser Counted}
  (hnegation : Reads patience tokens limit 0 depth negation (Reading.negation limit budget))

include hnegation

theorem sum_reads : Reads patience tokens limit 0 depth
    (sum add patience tokens limit negation)
    (Reading.sum limit (Reading.negation limit budget)) :=
  have hproduct : Reads patience tokens limit 0 depth
      (chained add patience tokens limit .product negation)
      (Chain.sum.reading limit (Reading.negation limit budget)) :=
    .chained hadd hbudget hnegation
  .chained hadd hbudget hproduct

theorem arguments_follow {start rounds rounds' height : Nat} {earlier : List Expr}
    (hc : At patience tokens c) (hevents : AllSound tokens limit events) (hdepth : depth ≤ c.taken)
    (hheight : start + height ≤ c.taken) (hrounds : c.ahead.length < rounds)
    (hrounds' : c.ahead.length < rounds') :
    Follows patience tokens limit depth
      (fun a nodes c' ↦ a = (earlier ++ nodes.map Node.expr, max height (Node.maxHeight nodes)) ∧
        start + a.2 ≤ c'.taken)
      (arguments add patience tokens limit negation rounds earlier height
        ⟨⟨c.taken, depth⟩, events⟩)
      (Reading.arguments (Reading.sum limit (Reading.negation limit budget)) rounds' c) := by
  induction rounds generalizing rounds' c events earlier height with
  | zero => omega
  | succ rounds ih =>
    obtain ⟨rounds', rfl⟩ := Nat.exists_eq_add_one_of_ne_zero (Nat.ne_zero_of_lt hrounds')
    rw [arguments, Reading.arguments]
    refine (sum_reads hadd hbudget hnegation c events hc hevents hdepth).bind ?_
    intro argument node c' events' hread hc' hevents' hargument
    have hlast := hargument.start_le
    have hstart : start + max height argument.height ≤ c'.taken := by omega
    rw [current_bind hc']
    dsimp only
    refine .branch hadd hc' nofun (fun hcomma htaken hadvance ↦ ?_) ?_
    · have hahead := sum_length_ahead_lt (by omega) hread hcomma
      refine (ih hadvance hevents' (by omega) (by omega) (by omega) (by omega)).map ?_
      intro a nodes c'' ⟨ha, hnodes⟩
      refine ⟨?_, hnodes⟩
      rw [ha, List.map_cons, Node.maxHeight, List.append_assoc, List.singleton_append,
        Nat.max_assoc, hargument.expr_eq, hargument.height_eq]
    · refine .ok hc' hevents' ⟨?_, hstart⟩
      rw [List.map_singleton, Node.maxHeight, Node.maxHeight, Nat.max_zero, hargument.expr_eq,
        hargument.height_eq]

omit hbudget hnegation in
theorem applicationEnd_follows {start : Nat} (function : String) (nodes : List Node)
    (hc : At patience tokens c) (hevents : AllSound tokens limit events)
    (hstart : start + Node.maxHeight nodes ≤ c.taken) :
    Follows patience tokens limit depth (SameTree limit start)
      (applicationEnd add tokens limit function (nodes.map Node.expr) (Node.maxHeight nodes)
        ⟨⟨c.taken, depth⟩, events⟩)
      (c.passClosing .argumentEnd >>= fun c ↦
        (Node.call function nodes).within limit >>= fun node ↦ .ok (node, c)) := by
  rw [applicationEnd]
  refine .passClosing hadd hc hevents fun htaken hadvance ↦ ?_
  exact .build_last hadd hadvance hevents rfl rfl (by omega)

theorem application_reads (function : String) :
    Reads patience tokens limit 0 depth (application add patience tokens limit negation function)
      (Reading.call limit (Reading.negation limit budget) function) := by
  intro c events hc hevents hdepth
  rw [application, current_bind hc, Reading.call]
  by_cases hclosing : c.current.lexeme = .closing
  · rw [if_pos hclosing, if_pos hclosing]
    exact applicationEnd_follows hadd function [] hc hevents (Nat.le_refl _)
  · rw [if_neg hclosing, if_neg hclosing]
    refine (arguments_follow hadd hbudget hnegation hc hevents hdepth (Nat.le_refl c.taken)
      hc.ahead (Nat.lt_succ_self _)).bind ?_
    intro a nodes c' events' _ hc' hevents' ⟨ha, hnodes⟩
    rw [ha, Nat.zero_max] at hnodes
    rw [ha, List.nil_append, Nat.zero_max]
    exact applicationEnd_follows hadd function nodes hc' hevents' hnodes

theorem group_reads :
    Reads patience tokens limit 0 depth (group add patience tokens limit negation)
      (Reading.group limit (Reading.negation limit budget)) := by
  intro c events hc hevents hdepth
  rw [group, Reading.group]
  refine (sum_reads hadd hbudget hnegation c events hc hevents hdepth).bind ?_
  intro inner node c' events' _ hc' hevents' hinner
  have hstart := hinner.start_le
  refine .passClosing hadd hc' hevents' fun htaken hadvance ↦ .ok hadvance hevents' ?_
  exact { hinner with start_le := by omega }

variable (hopen : 0 < limit)

include hopen

theorem operand_reads :
    Reads patience tokens limit 1 depth (operand add patience tokens limit negation)
      (Reading.operand limit (Reading.negation limit budget)) := by
  intro c events hc hevents hdepth
  rw [Watched.operand, Reading.operand]
  refine .call hdepth (by omega) hevents fun events hevents ↦ ?_
  rw [current_bind hc]
  cases hlexeme : c.current.lexeme with
  | number value =>
    have hfinish : c.current.lexeme ≠ .finish := by simp [hlexeme]
    have hleaf : (Node.number value).height = 1 := rfl
    dsimp only
    rw [advance_bind hc hadd hfinish]
    exact .make hevents (hc.advance hfinish) hleaf hopen
      (Nat.le_of_eq (taken_advance hfinish).symm)
  | name text =>
    have hfinish : c.current.lexeme ≠ .finish := by simp [hlexeme]
    have htaken := taken_advance hfinish
    have hleaf : (Node.name text).height = 1 := rfl
    dsimp only
    rw [advance_bind hc hadd hfinish, current_bind (hc.advance hfinish)]
    refine .branch hadd (hc.advance hfinish) nofun (fun _ htaken' hadvance ↦ ?_) ?_
    · exact (application_reads hadd hbudget hnegation text _ _ hadvance hevents (by omega)).mono
        fun htree ↦ htree.mono (by omega)
    · exact .make hevents (hc.advance hfinish) hleaf hopen (Nat.le_of_eq htaken.symm)
  | opening =>
    have hfinish : c.current.lexeme ≠ .finish := by simp [hlexeme]
    have htaken := taken_advance hfinish
    dsimp only
    rw [advance_bind hc hadd hfinish]
    exact (group_reads hadd hbudget hnegation _ _ (hc.advance hfinish) hevents (by omega)).mono
      fun htree ↦ htree.mono (by omega)
  | _ =>
    dsimp only
    rw [unexpected_eq hc]
    exact .error (Nat.le_refl depth) hevents

theorem power_reads :
    Reads patience tokens limit 1 depth (power add patience tokens limit negation)
      (Reading.power limit (Reading.negation limit budget)) := by
  intro c events hc hevents hdepth
  rw [Watched.power, Reading.power]
  refine .call hdepth (by omega) hevents fun events hevents ↦ ?_
  refine (operand_reads hadd hbudget hnegation hopen c events hc hevents hdepth).bind ?_
  intro base base' c' events' _ hc' hevents' hbase
  have hbefore := hbase.start_le
  have hpos := hbase.height_pos
  rw [current_bind hc']
  dsimp only
  refine .branch hadd hc' nofun (fun _ htaken hadvance ↦ ?_) (.ok hc' hevents' hbase)
  refine (hnegation _ _ hadvance hevents' (by omega)).bind ?_
  intro exponent exponent' c'' events'' _ hc'' hevents'' hexponent
  have hafter := hexponent.start_le
  have hexpr : Expr.binary .pow base.expr exponent.expr =
      (Node.binary .pow base' exponent').expr := by
    rw [hbase.expr_eq, hexponent.expr_eq]
    rfl
  have hheight : (Node.binary .pow base' exponent').height =
      1 + max base.height exponent.height := by
    rw [hbase.height_eq, hexponent.height_eq]
    rfl
  exact .build_last hadd hc'' hevents'' hexpr hheight (by omega)

theorem signed_follows (hc : At patience tokens c) (hevents : AllSound tokens limit events)
    (hdepth : depth ≤ c.taken + 1) :
    Follows patience tokens limit depth (SameTree limit c.taken)
      (signed add patience tokens limit negation ⟨⟨c.taken, depth⟩, events⟩)
      (if c.current.lexeme = .minus then
        Reading.negation limit budget c.advance >>= fun (operand, c) ↦
          operand.neg.within limit >>= fun node ↦ .ok (node, c)
      else Reading.power limit (Reading.negation limit budget) c) := by
  rw [signed, current_bind hc]
  refine .branch hadd hc nofun (fun _ htaken hadvance ↦ ?_)
    (power_reads hadd hbudget hnegation hopen c events hc hevents hdepth)
  refine (hnegation _ _ hadvance hevents (by omega)).bind ?_
  intro inner inner' c' events' _ hc' hevents' hinner
  have hafter := hinner.start_le
  have hexpr : Expr.neg inner.expr = inner'.neg.expr := by
    rw [hinner.expr_eq]
    rfl
  have hheight : inner'.neg.height = 1 + inner.height := by
    rw [hinner.height_eq]
    rfl
  exact .build_last hadd hc' hevents' hexpr hheight (by omega)

end

/-! ## The recursion -/

section

variable {add : Nat → Nat → Checked Nat} {patience limit : Nat} {tokens tokens' : List Token}
  {c : Cursor}

/-- So many rounds are enough for the recursion with so many negations open: each of them counts
against the limit, and each has taken a token. -/
def Suffices (tokens : List Token) (limit depth rounds : Nat) : Prop :=
  limit < depth + rounds ∨
    .finish ∈ tokens.map Token.lexeme ∧ tokens.length ≤ depth + rounds

/-- What is left of the limit is the budget of the reading. -/
theorem negation_reads {depth budget rounds : Nat} (hadd : AddsUpTo add tokens)
    (hrounds : Suffices tokens limit depth rounds) (hbudget : depth + budget = limit) :
    Reads patience tokens limit 0 depth (negation add patience tokens limit rounds)
      (Reading.negation limit budget) := by
  induction rounds generalizing depth budget with
  | zero =>
    intro c events hc hevents hdepth
    rcases hrounds with hrounds | ⟨hfinish, hrounds⟩
    · omega
    · have htaken := hc.taken_lt hfinish
      omega
  | succ rounds ih =>
    intro c events hc hevents hdepth
    rw [negation]
    refine .call (by omega) (by omega) hevents fun events hevents ↦ ?_
    cases budget with
    | zero =>
      rw [Reading.negation]
      exact .counted_of_deep hadd hc hdepth hevents (by omega)
    | succ budget =>
      have hbelow : Suffices tokens limit (depth + 1) rounds := by
        rwa [Suffices, Nat.add_right_comm]
      rw [Reading.negation]
      refine .counted hadd hc hdepth hevents (by omega) fun events hevents ↦ ?_
      exact signed_follows hadd (by omega) (ih hbelow (by omega)) (by omega) hc hevents (by omega)

theorem whole_follows (hadd : AddsUpTo add tokens) (hpatience : Suffices tokens limit 0 patience)
    (hc : At patience tokens c) (hzero : c.taken = 0) :
    Follows patience tokens limit 0 (SameTree limit 0)
      (whole add patience tokens limit ⟨⟨0, 0⟩, []⟩) (Reading.whole limit c) := by
  have hnegation : Reads patience tokens limit 0 0 (negation add patience tokens limit patience)
      (Reading.negation limit limit) := negation_reads hadd hpatience (Nat.zero_add limit)
  have hsum := sum_reads hadd (Nat.zero_add limit) hnegation c [] hc (List.forall_mem_nil _)
    (Nat.zero_le _)
  rw [hzero] at hsum
  rw [whole, Reading.whole]
  refine hsum.bind ?_
  intro tree node c' events _ hc' hevents htree
  rw [current_bind hc']
  dsimp only
  by_cases hfinish : c'.current.lexeme = .finish
  · rw [if_pos hfinish, if_pos hfinish]
    exact .ok hc' hevents htree
  · rw [if_neg hfinish, if_neg hfinish, unexpected_eq hc']
    exact .error (Nat.le_refl 0) hevents

/-- With enough patience, the watched parser comes to what the reading comes to of any tokens that
are the same up to the first end. -/
theorem ofTokens_eq (hadd : AddsUpTo add tokens') (hsame : upToEnd tokens = upToEnd tokens')
    (hpatience : tokens.length ≤ patience) (hrounds : Suffices tokens' limit 0 patience) :
    ∃ events, ofTokens add patience tokens' limit = .ok (Expr.ofTokens tokens limit, events) ∧
      AllSound tokens' limit events := by
  cases tokens with
  | nil =>
    rw [upToEnd_eq_nil_iff.mp hsame.symm]
    exact ⟨[], rfl, List.forall_mem_nil _⟩
  | cons first rest =>
    have hne : tokens' ≠ [] := by
      rintro rfl
      have hnil := upToEnd_eq_nil_iff.mp hsame
      cases hnil
    have hc : At patience tokens' ⟨first, rest, 0⟩ := by
      refine ⟨?_, List.not_mem_nil, hpatience⟩
      rw [Nat.zero_min, List.drop_zero]
      exact hsame.symm
    have hfollows := whole_follows hadd hrounds hc rfl
    rw [ofTokens, if_neg hne, Expr.ofTokens]
    generalize whole add patience tokens' limit ⟨⟨0, 0⟩, []⟩ = watched at hfollows
    generalize Reading.whole limit ⟨first, rest, 0⟩ = reading at hfollows
    cases hfollows with
    | @ok tree node c events hc hevents htree =>
      refine ⟨events, ?_, hevents⟩
      change Except.ok (Except.ok tree.expr, events) = .ok (.ok node.expr, events)
      rw [htree.expr_eq]
    | error _ hevents => exact ⟨_, rfl, hevents⟩

end

end Watched

end Reckoner
