import AiFw.Pf.Lexer

namespace AiFw.Pf
set_option autoImplicit true

abbrev kw (k : String) : Token := .word k.toList

def oneOf (ks : List String) : List Token → Option (List Char) × List Token
  | .word w :: ts => if w ∈ ks.map String.toList then (some w, ts) else (none, .word w :: ts)
  | ts => (none, ts)

/-- An optional clause, recognised by its keyword. -/
def clause (k : String) (body : List Token → Option (α × List Token)) (ts : List Token) :
    Option (Option α × List Token) :=
  match oneOf [k] ts with
  | (some _, ts) => (body ts).map fun p => (some p.1, p.2)
  | (none, ts) => some (none, ts)

def word : List Token → Option (List Char × List Token)
  | .word w :: ts => some (w, ts)
  | _ => none

def text : List Token → Option (List Char × List Token)
  | .word w :: ts => some (w, ts)
  | .str w :: ts => some (w, ts)
  | _ => none

def untilSym (c : Char) : List Token → Option (List Token × List Token)
  | [] => none
  | t :: ts =>
    if t = .sym c then some ([], ts)
    else (untilSym c ts).map fun p => (t :: p.1, p.2)

def optSym (c : Char) : List Token → Bool × List Token
  | t :: ts => if t = .sym c then (true, ts) else (false, t :: ts)
  | [] => (false, [])

def wordsOf : List Token → Option (List (List Char))
  | [] => some []
  | .word w :: ts => (wordsOf ts).map (w :: ·)
  | .sym ',' :: ts => wordsOf ts
  | _ => none

def protocols (ts : List Token) : Option (List (List Char) × List Token) :=
  match optSym '{' ts with
  | (true, ts) => do
    let (items, ts) ← untilSym '}' ts
    let names ← wordsOf items
    return (names, ts)
  | (false, ts) => (word ts).map fun p => ([p.1], p.2)

/-- An address as it is written. -/
inductive RawAddr where
  | name (text : List Char)
  | net (text len : List Char)
  | table (name : List Char)
deriving DecidableEq, Repr

structure RawHost where
  neg : Bool
  addr : RawAddr
  port : Option (List Char)
deriving DecidableEq, Repr

def rawAddr : List Token → Option (RawAddr × List Token)
  | .word w :: .sym '/' :: .word len :: ts => some (.net w len, ts)
  | .word w :: ts => some (.name w, ts)
  | .sym '<' :: .word w :: .sym '>' :: ts => some (.table w, ts)
  | _ => none

/-- `[!] addr [port p]`. -/
def host (ts : List Token) : Option (RawHost × List Token) := do
  let (neg, ts) := optSym '!' ts
  let (addr, ts) ← rawAddr ts
  let (port, ts) ← clause "port" word ts
  return (⟨neg, addr, port⟩, ts)

/-- The clauses a rule of any kind matches packets with. -/
structure RawMatch where
  family : Option (List Char)
  protos : Option (List (List Char))
  src : Option RawHost
  dst : Option RawHost
deriving DecidableEq, Repr

def matchClauses (ts : List Token) : Option (RawMatch × List Token) := do
  let (family, ts) := oneOf ["inet", "inet6"] ts
  let (protos, ts) ← clause "proto" protocols ts
  let (src, ts) ← clause "from" host ts
  let (dst, ts) ← clause "to" host ts
  return (⟨family, protos, src, dst⟩, ts)

/-- One next hop in parentheses, or a pool of them in braces with its options. -/
inductive RawRoute where
  | hop (target : List Token)
  | pool (targets : List Token) (roundRobin sticky : Bool)
deriving DecidableEq, Repr

def routeHosts (ts : List Token) : Option (RawRoute × List Token) :=
  match optSym '{' ts with
  | (true, ts) => do
    let (hops, ts) ← untilSym '}' ts
    let (roundRobin, ts) := oneOf ["round-robin"] ts
    let (sticky, ts) := oneOf ["sticky-address"] ts
    return (.pool hops roundRobin.isSome sticky.isSome, ts)
  | (false, ts) =>
    match optSym '(' ts with
    | (true, ts) => (untilSym ')' ts).map fun p => (.hop p.1, p.2)
    | (false, _) => none

/-- `keep state`, `modulate state` or `synproxy state` with at most one list of options. -/
def stateClause (ts : List Token) : Option (Option (List Char × List Token) × List Token) :=
  match oneOf ["keep", "modulate", "synproxy"] ts with
  | (none, ts) => some (none, ts)
  | (some kind, ts) => do
    let (kind', ts) := oneOf ["state"] ts
    if kind'.isNone then none
    else
      match optSym '(' ts with
      | (true, ts) => do
        let (options, ts) ← untilSym ')' ts
        return (some (kind, options), ts)
      | (false, ts) => some (some (kind, []), ts)

def action (ts : List Token) : Option ((List Char × Option (List Char)) × List Token) :=
  match oneOf ["pass", "block"] ts with
  | (some w, ts) =>
    let (policy, ts) := if w = "block".toList then oneOf ["drop", "return"] ts else (none, ts)
    some ((w, policy), ts)
  | (none, _) => none

structure RawHead where
  action : List Char × Option (List Char)
  direction : Option (List Char)
  log : Bool
  quick : Bool
  interface : Option (List Char)
  route : Option RawRoute
deriving DecidableEq, Repr

def filterHead (ts : List Token) : Option (RawHead × List Token) := do
  let (action, ts) ← action ts
  let (direction, ts) := oneOf ["in", "out"] ts
  let (log, ts) := oneOf ["log"] ts
  let (quick, ts) := oneOf ["quick"] ts
  let (interface, ts) ← clause "on" word ts
  let (route, ts) ← clause "route-to" routeHosts ts
  return (⟨action, direction, log.isSome, quick.isSome, interface, route⟩, ts)

/-- What may follow the hosts of a filter rule; a route has its place in the head. -/
structure RawOptions where
  rtable : Option (List Char)
  state : Option (List Char × List Token)
  label : Option (List Char)
deriving DecidableEq, Repr

def filterOptions (ts : List Token) : Option RawOptions := do
  let (rtable, ts) ← clause "rtable" word ts
  let (state, ts) ← stateClause ts
  let (label, ts) ← clause "label" text ts
  if ts = [] then some ⟨rtable, state, label⟩ else none

structure RawFilter where
  head : RawHead
  clauses : RawMatch
  options : RawOptions
deriving DecidableEq, Repr

def filterRule (ts : List Token) : Option RawFilter := do
  let (head, ts) ← filterHead ts
  let (clauses, ts) ← matchClauses ts
  let options ← filterOptions ts
  return ⟨head, clauses, options⟩

def parseFilter (line : List Char) : Option RawFilter := (lex line).bind filterRule

structure RawTranslation where
  kind : List Char
  interface : Option (List Char)
  clauses : RawMatch
  target : List Token
deriving DecidableEq, Repr

def natOrRdr (ts : List Token) : Option RawTranslation := do
  let (kind, ts) := oneOf ["nat", "rdr"] ts
  let kind ← kind
  let (interface, ts) ← clause "on" word ts
  let (clauses, ts) ← matchClauses ts
  let (arrow, ts) := oneOf ["-"] ts
  match arrow, optSym '>' ts with
  | some _, (true, target) =>
    if target = [] then none else some { kind, interface, clauses, target }
  | _, _ => none

/-- An address or a network, as against `any` and the tables. -/
def RawAddr.isAddress : RawAddr → Bool
  | .name w => w ≠ "any".toList
  | .net _ _ => true
  | .table _ => false

def onlyAddress (ts : List Token) : Option (RawAddr × List Token) :=
  (rawAddr ts).filter fun p => p.1.isAddress

def hostNoPort (ts : List Token) : Option (RawHost × List Token) := do
  let (neg, ts) := optSym '!' ts
  let (addr, ts) ← rawAddr ts
  return (⟨neg, addr, none⟩, ts)

def binatHosts (ts : List Token) : Option ((RawAddr × RawHost) × List Token) := do
  let (src, ts) ← clause "from" onlyAddress ts
  let src ← src
  let (dst, ts) ← clause "to" hostNoPort ts
  let dst ← dst
  return ((src, dst), ts)

def binatTarget (ts : List Token) : Option (List Token) :=
  let (arrow, ts) := oneOf ["-"] ts
  match arrow, optSym '>' ts with
  | some _, (true, target) => do
    let (_, rest) ← onlyAddress target
    if rest = [] then some target else none
  | _, _ => none

/-- One address or network stands for another: at most one protocol, and no ports at all. -/
def binat (ts : List Token) : Option RawTranslation := do
  let (kind, ts) := oneOf ["binat"] ts
  let kind ← kind
  let (interface, ts) ← clause "on" word ts
  let (family, ts) := oneOf ["inet", "inet6"] ts
  let (proto, ts) ← clause "proto" word ts
  let ((src, dst), ts) ← binatHosts ts
  let target ← binatTarget ts
  return ⟨kind, interface, ⟨family, proto.map fun w => [w], some ⟨false, src, none⟩, some dst⟩,
    target⟩

def translationRule (ts : List Token) : Option RawTranslation := (natOrRdr ts).or (binat ts)

def parseTranslation (line : List Char) : Option RawTranslation := (lex line).bind translationRule

/-- The tokens are at the end or begin with one of the keywords. -/
def Starts (ks : List String) (ts : List Token) : Prop := ∀ t ∈ ts.head?, ∃ k ∈ ks, t = kw k

theorem Starts.nil : Starts ks [] := by
  intro t ht
  cases ht

theorem Starts.kw (h : k ∈ ks) : Starts ks (Pf.kw k :: ts) := by
  intro t ht
  cases ht
  exact ⟨k, h, rfl⟩

theorem Starts.mono (h : Starts js ts) (hs : ∀ k ∈ js, k ∈ ks) : Starts ks ts := by
  intro t ht
  obtain ⟨k, hk, he⟩ := h t ht
  exact ⟨k, hs k hk, he⟩

theorem Starts.append (hts : Starts js ts) (hrest : Starts ks rest) :
    Starts (js ++ ks) (ts ++ rest) := by
  cases ts with
  | nil => exact hrest.mono fun k hk => List.mem_append_right js hk
  | cons t ts =>
    intro t' ht'
    cases ht'
    obtain ⟨k, hk, he⟩ := hts t rfl
    exact ⟨k, List.mem_append_left ks hk, he⟩

theorem oneOf_word (h : w ∈ ks.map String.toList) : oneOf ks (.word w :: ts) = (some w, ts) := by
  rw [oneOf, if_pos h]

theorem oneOf_skip (h : Starts js ts) (hd : ∀ k ∈ ks, k ∉ js) : oneOf ks ts = (none, ts) := by
  cases ts with
  | nil => rfl
  | cons t ts =>
    obtain ⟨k, hk, rfl⟩ := h t rfl
    rw [oneOf, if_neg]
    intro hm
    obtain ⟨k', hk', he⟩ := List.mem_map.mp hm
    rw [String.toList_inj.mp he] at hk'
    exact hd k hk' hk

theorem clause_skip {body : List Token → Option (α × List Token)} (h : Starts js ts)
    (hk : k ∉ js) : clause k body ts = some (none, ts) := by
  have hskip : oneOf [k] ts = (none, ts) := by
    apply oneOf_skip h
    intro k' hk'
    rw [List.mem_singleton.mp hk']
    exact hk
  simp only [clause, hskip]

theorem clause_take {body : List Token → Option (α × List Token)} (h : body ts = some (x, rest)) :
    clause k body (kw k :: ts) = some (some x, rest) := by
  have htake : oneOf [k] (kw k :: ts) = (some k.toList, ts) :=
    oneOf_word (List.mem_map_of_mem List.mem_cons_self)
  simp only [clause, htake, h, Option.map_some]

theorem optSym_skip (h : Starts js ts) : optSym c ts = (false, ts) := by
  cases ts with
  | nil => rfl
  | cons t ts =>
    obtain ⟨k, hk, rfl⟩ := h t rfl
    rfl

theorem optSym_take : optSym c (.sym c :: ts) = (true, ts) := by
  rw [optSym, if_pos rfl]

theorem untilSym_append (h : .sym c ∉ items) (ts : List Token) :
    untilSym c (items ++ .sym c :: ts) = some (items, ts) := by
  induction items with
  | nil => rw [List.nil_append, untilSym, if_pos rfl]
  | cons t items ih =>
    rw [List.mem_cons, not_or] at h
    rw [List.cons_append, untilSym, if_neg (Ne.symm h.1), ih h.2]
    rfl

theorem wordsOf_map (ws : List (List Char)) : wordsOf (ws.map .word) = some ws := by
  induction ws with
  | nil => rfl
  | cons w ws ih => rw [List.map_cons, wordsOf, ih, Option.map_some]

def pickToks : Option (List Char) → List Token
  | none => []
  | some w => [.word w]

def clauseToks (k : String) (body : α → List Token) : Option α → List Token
  | none => []
  | some x => kw k :: body x

theorem Starts.pick (h : ∀ w ∈ o, w ∈ ks.map String.toList) : Starts ks (pickToks o) := by
  cases o with
  | none => exact .nil
  | some w =>
    obtain ⟨k, hk, rfl⟩ := List.mem_map.mp (h w rfl)
    exact .kw hk

theorem Starts.clause {f : α → List Token} : Starts [k] (clauseToks k f o) := by
  cases o with
  | none => exact .nil
  | some x => exact .kw List.mem_cons_self

theorem oneOf_pick (h : ∀ w ∈ o, w ∈ ks.map String.toList) (hr : Starts js rest)
    (hd : ∀ k ∈ ks, k ∉ js) : oneOf ks (pickToks o ++ rest) = (o, rest) := by
  cases o with
  | none => exact oneOf_skip hr hd
  | some w => exact oneOf_word (h w rfl)

theorem clause_toks {body : List Token → Option (α × List Token)} {toks : α → List Token}
    (h : ∀ x ∈ o, body (toks x ++ rest) = some (x, rest)) (hr : Starts js rest) (hk : k ∉ js) :
    clause k body (clauseToks k toks o ++ rest) = some (o, rest) := by
  cases o with
  | none => exact clause_skip hr hk
  | some x => exact clause_take (h x rfl)

def protocolToks : List (List Char) → List Token
  | [w] => [.word w]
  | ws => .sym '{' :: ws.map .word ++ [.sym '}']

theorem protocols_toks (ws : List (List Char)) (rest : List Token) :
    protocols (protocolToks ws ++ rest) = some (ws, rest) := by
  unfold protocolToks
  split
  · rfl
  · have hsym : Token.sym '}' ∉ ws.map Token.word := by
      intro h
      obtain ⟨w, -, he⟩ := List.mem_map.mp h
      cases he
    rw [List.append_assoc, List.cons_append, List.singleton_append, protocols, optSym_take]
    simp only [untilSym_append hsym rest, wordsOf_map, Option.bind_eq_bind, Option.bind_some,
      Option.pure_def]

def addrToks : RawAddr → List Token
  | .name w => [.word w]
  | .net w len => [.word w, .sym '/', .word len]
  | .table w => [.sym '<', .word w, .sym '>']

def hostToks (h : RawHost) : List Token :=
  (if h.neg then [.sym '!'] else []) ++ addrToks h.addr ++
    clauseToks "port" (fun w => [.word w]) h.port

theorem rawAddr_toks (a : RawAddr) (hr : Starts js rest) :
    rawAddr (addrToks a ++ rest) = some (a, rest) := by
  cases a with
  | name w =>
    cases rest with
    | nil => rfl
    | cons t ts =>
      obtain ⟨k, -, rfl⟩ := hr t rfl
      rfl
  | net w len => rfl
  | table w => rfl

theorem word_toks (w : List Char) (rest : List Token) : word ([.word w] ++ rest) = some (w, rest) :=
  rfl

theorem optSym_addr (a : RawAddr) (rest : List Token) :
    optSym '!' (addrToks a ++ rest) = (false, addrToks a ++ rest) := by
  cases a <;> rfl

theorem host_toks (h : RawHost) (hr : Starts js rest) (hp : "port" ∈ js → h.port.isSome) :
    host (hostToks h ++ rest) = some (h, rest) := by
  obtain ⟨neg, addr, port⟩ := h
  have hport : clause "port" word (clauseToks "port" (fun w => [.word w]) port ++ rest) =
      some (port, rest) := by
    cases port with
    | none => exact clause_skip hr fun h => Bool.false_ne_true (hp h)
    | some w => exact clause_take rfl
  have haddr := rawAddr_toks addr ((Starts.clause (k := "port") (f := fun w => [Token.word w])
    (o := port)).append hr)
  unfold hostToks
  simp only [List.append_assoc]
  cases neg with
  | false =>
    simp only [Bool.false_eq_true, if_false, List.nil_append, host, optSym_addr, haddr, hport,
      Option.bind_eq_bind, Option.bind_some, Option.pure_def]
  | true =>
    simp only [if_true, List.singleton_append, host, optSym_take, haddr, hport,
      Option.bind_eq_bind, Option.bind_some, Option.pure_def]

def matchToks (m : RawMatch) : List Token :=
  pickToks m.family ++ (clauseToks "proto" protocolToks m.protos ++
    (clauseToks "from" hostToks m.src ++ clauseToks "to" hostToks m.dst))

theorem Starts.matchToks {m : RawMatch}
    (hf : ∀ w ∈ m.family, w ∈ ["inet", "inet6"].map String.toList) (hr : Starts js rest) :
    Starts (["inet", "inet6", "proto", "from", "to"] ++ js) (Pf.matchToks m ++ rest) := by
  unfold Pf.matchToks
  simp only [List.append_assoc]
  exact (Starts.pick hf).append (Starts.clause.append (Starts.clause.append
    (Starts.clause.append hr)))

theorem matchClauses_toks {m : RawMatch}
    (hf : ∀ w ∈ m.family, w ∈ ["inet", "inet6"].map String.toList) (hr : Starts js rest)
    (hd : ∀ k ∈ ["inet", "inet6", "proto", "from", "to"], k ∉ js)
    (hp : "port" ∈ js → ∃ h ∈ m.dst, h.port.isSome) :
    matchClauses (matchToks m ++ rest) = some (m, rest) := by
  obtain ⟨family, protos, src, dst⟩ := m
  have hr₁ : Starts ("to" :: js) (clauseToks "to" hostToks dst ++ rest) := Starts.clause.append hr
  have hr₂ : Starts ("from" :: "to" :: js) (clauseToks "from" hostToks src ++
      (clauseToks "to" hostToks dst ++ rest)) := Starts.clause.append hr₁
  have hr₃ : Starts ("proto" :: "from" :: "to" :: js) (clauseToks "proto" protocolToks protos ++
      (clauseToks "from" hostToks src ++ (clauseToks "to" hostToks dst ++ rest))) :=
    Starts.clause.append hr₂
  have hdst : clause "to" host (clauseToks "to" hostToks dst ++ rest) = some (dst, rest) := by
    apply clause_toks _ hr (hd _ (by decide))
    intro h hh
    apply host_toks h hr
    intro hj
    obtain ⟨h', hh', hs⟩ := hp hj
    rw [Option.mem_unique hh hh']
    exact hs
  have hsrc : clause "from" host (clauseToks "from" hostToks src ++
      (clauseToks "to" hostToks dst ++ rest)) =
        some (src, clauseToks "to" hostToks dst ++ rest) := by
    cases src with
    | none =>
      apply clause_skip hr₁
      simp only [List.mem_cons, not_or]
      exact ⟨by decide, hd _ (by decide)⟩
    | some h =>
      apply clause_take
      cases dst with
      | none =>
        apply host_toks h hr
        intro hj
        obtain ⟨h', hh', -⟩ := hp hj
        cases hh'
      | some d =>
        have hto : Starts ["to"] (clauseToks "to" hostToks (some d) ++ rest) :=
          .kw List.mem_cons_self
        exact host_toks h hto fun hj => absurd hj (by decide)
  have hproto : clause "proto" protocols (clauseToks "proto" protocolToks protos ++
      (clauseToks "from" hostToks src ++ (clauseToks "to" hostToks dst ++ rest))) =
      some (protos, clauseToks "from" hostToks src ++ (clauseToks "to" hostToks dst ++ rest)) := by
    apply clause_toks (fun ws _ => protocols_toks ws _) hr₂
    simp only [List.mem_cons, not_or]
    exact ⟨by decide, by decide, hd _ (by decide)⟩
  have hfam := oneOf_pick hf hr₃ (by
    simp only [List.mem_cons, not_or, List.not_mem_nil, or_false, forall_eq_or_imp, forall_eq]
    exact ⟨⟨by decide, by decide, by decide, hd _ (by decide)⟩,
      by decide, by decide, by decide, hd _ (by decide)⟩)
  unfold matchToks matchClauses
  simp only [List.append_assoc, hfam, hproto, hsrc, hdst, Option.bind_eq_bind, Option.bind_some,
    Option.pure_def]

def flagToks (k : String) (b : Bool) : List Token := if b then [kw k] else []

theorem Starts.flag : Starts [k] (flagToks k b) := by
  cases b
  · exact .nil
  · exact .kw List.mem_cons_self

theorem oneOf_flag (b : Bool) (hr : Starts js rest) (hk : k ∉ js) :
    (oneOf [k] (flagToks k b ++ rest)).1.isSome = b ∧
      (oneOf [k] (flagToks k b ++ rest)).2 = rest := by
  cases b with
  | false =>
    have hskip : oneOf [k] rest = (none, rest) := by
      apply oneOf_skip hr
      intro k' hk'
      rw [List.mem_singleton.mp hk']
      exact hk
    simp only [flagToks, Bool.false_eq_true, if_false, List.nil_append, hskip, Option.isSome_none,
      and_self]
  | true =>
    have htake : oneOf [k] (kw k :: rest) = (some k.toList, rest) :=
      oneOf_word (List.mem_map_of_mem List.mem_cons_self)
    simp only [flagToks, if_true, List.singleton_append, htake, Option.isSome_some, and_self]

def routeToks : RawRoute → List Token
  | .hop target => .sym '(' :: target ++ [.sym ')']
  | .pool targets roundRobin sticky => .sym '{' :: targets ++ .sym '}' ::
      (flagToks "round-robin" roundRobin ++ flagToks "sticky-address" sticky)

def RawRoute.Closed : RawRoute → Prop
  | .hop target => .sym ')' ∉ target
  | .pool targets _ _ => .sym '}' ∉ targets

theorem routeHosts_toks (hc : RawRoute.Closed r) (hr : Starts js rest)
    (hd : ∀ k ∈ ["round-robin", "sticky-address"], k ∉ js) :
    routeHosts (routeToks r ++ rest) = some (r, rest) := by
  cases r with
  | hop target =>
    have huntil := untilSym_append hc rest
    have hopen (ts : List Token) : optSym '{' (.sym '(' :: ts) = (false, .sym '(' :: ts) := rfl
    simp only [routeToks, List.cons_append, List.append_assoc, List.nil_append, routeHosts, hopen,
      optSym_take, huntil, Option.map_some]
  | pool targets roundRobin sticky =>
    have huntil := untilSym_append hc (flagToks "round-robin" roundRobin ++
      (flagToks "sticky-address" sticky ++ rest))
    have hsticky := oneOf_flag (k := "sticky-address") sticky hr (hd _ (by decide))
    have hrest := (Starts.flag (k := "sticky-address") (b := sticky)).append hr
    have hrobin := oneOf_flag (k := "round-robin") roundRobin hrest (by
      simp only [List.singleton_append, List.mem_cons, not_or]
      exact ⟨by decide, hd _ (by decide)⟩)
    simp only [routeToks, List.cons_append, List.append_assoc, routeHosts, optSym_take, huntil,
      Option.bind_eq_bind, Option.bind_some, hrobin, hsticky, Option.pure_def]

def stateToks (s : List Char × List Token) : List Token :=
  .word s.1 :: kw "state" :: if s.2 = [] then [] else .sym '(' :: s.2 ++ [.sym ')']

theorem stateClause_skip (hr : Starts js ts) (hd : ∀ k ∈ ["keep", "modulate", "synproxy"], k ∉ js) :
    stateClause ts = some (none, ts) := by
  simp only [stateClause, oneOf_skip hr hd]

theorem stateClause_toks (hk : s.1 ∈ ["keep", "modulate", "synproxy"].map String.toList)
    (hc : .sym ')' ∉ s.2) (hr : s.2 = [] → Starts js rest) :
    stateClause (stateToks s ++ rest) = some (some s, rest) := by
  obtain ⟨kind, options⟩ := s
  have hstate (ts : List Token) : oneOf ["state"] (kw "state" :: ts) = (some "state".toList, ts) :=
    oneOf_word (List.mem_map_of_mem List.mem_cons_self)
  by_cases ho : options = []
  · simp only [stateToks, ho, if_true, List.cons_append, List.nil_append, stateClause,
      oneOf_word hk, hstate, Option.isNone_some, Bool.false_eq_true, if_false,
      optSym_skip (hr ho)]
  · have huntil := untilSym_append hc rest
    simp only [stateToks, ho, if_false, List.cons_append, List.append_assoc, List.nil_append,
      stateClause, oneOf_word hk, hstate, Option.isNone_some, Bool.false_eq_true, optSym_take,
      huntil, Option.bind_eq_bind, Option.bind_some, Option.pure_def]

def actionToks (a : List Char × Option (List Char)) : List Token := .word a.1 :: pickToks a.2

def headToks (h : RawHead) : List Token :=
  actionToks h.action ++ (pickToks h.direction ++ (flagToks "log" h.log ++
    (flagToks "quick" h.quick ++ (clauseToks "on" (fun w => [.word w]) h.interface ++
      clauseToks "route-to" routeToks h.route))))

/-- The texts of a head are among the keywords of their places. -/
structure RawHead.WellFormed (h : RawHead) : Prop where
  action : h.action.1 ∈ ["pass", "block"].map String.toList
  policy : ∀ w ∈ h.action.2, h.action.1 = "block".toList ∧ w ∈ ["drop", "return"].map String.toList
  direction : ∀ w ∈ h.direction, w ∈ ["in", "out"].map String.toList
  route : ∀ r ∈ h.route, r.Closed

theorem action_toks (ha : a.1 ∈ ["pass", "block"].map String.toList)
    (hp : ∀ w ∈ a.2, a.1 = "block".toList ∧ w ∈ ["drop", "return"].map String.toList)
    (hr : Starts js rest) (hd : ∀ k ∈ ["drop", "return"], k ∉ js) :
    action (actionToks a ++ rest) = some (a, rest) := by
  obtain ⟨w, policy⟩ := a
  dsimp only at ha hp
  by_cases hb : w = "block".toList
  · have hpick := oneOf_pick (fun p h => (hp p h).2) hr hd
    subst hb
    simp only [actionToks, List.cons_append, action, oneOf_word ha, if_true, hpick]
  · have hnone : policy = none := by
      cases policy with
      | none => rfl
      | some p => exact absurd (hp p rfl).1 hb
    simp only [actionToks, List.cons_append, action, oneOf_word ha, hb, if_false, hnone, pickToks,
      List.nil_append]

/-- The keywords that may follow the head of a filter rule. -/
def tailKeywords : List String :=
  ["inet", "inet6", "proto", "from", "to", "port", "route-to", "rtable", "keep", "modulate",
    "synproxy", "label"]

theorem filterHead_toks {h : RawHead} (hw : h.WellFormed) (hr : Starts js rest)
    (hroute : h.route = none → "route-to" ∉ js) (hjs : ∀ k ∈ js, k ∈ tailKeywords) :
    filterHead (headToks h ++ rest) = some (h, rest) := by
  obtain ⟨act, direction, log, quick, interface, route⟩ := h
  have hout (k : String) (hk : k ∉ tailKeywords) : k ∉ js := fun h => hk (hjs k h)
  have hr₁ : Starts ("route-to" :: js) (clauseToks "route-to" routeToks route ++ rest) :=
    Starts.clause.append hr
  have hr₂ : Starts ("on" :: "route-to" :: js) (clauseToks "on" (fun w => [.word w]) interface ++
      (clauseToks "route-to" routeToks route ++ rest)) := Starts.clause.append hr₁
  have hr₃ : Starts ("quick" :: "on" :: "route-to" :: js) (flagToks "quick" quick ++
      (clauseToks "on" (fun w => [.word w]) interface ++
        (clauseToks "route-to" routeToks route ++ rest))) := Starts.flag.append hr₂
  have hr₄ : Starts ("log" :: "quick" :: "on" :: "route-to" :: js) (flagToks "log" log ++
      (flagToks "quick" quick ++ (clauseToks "on" (fun w => [.word w]) interface ++
        (clauseToks "route-to" routeToks route ++ rest)))) := Starts.flag.append hr₃
  have hr₅ : Starts ("in" :: "out" :: "log" :: "quick" :: "on" :: "route-to" :: js)
      (pickToks direction ++ (flagToks "log" log ++ (flagToks "quick" quick ++
        (clauseToks "on" (fun w => [.word w]) interface ++
          (clauseToks "route-to" routeToks route ++ rest))))) :=
    (Starts.pick hw.direction).append hr₄
  have hproute : clause "route-to" routeHosts (clauseToks "route-to" routeToks route ++ rest) =
      some (route, rest) := by
    cases route with
    | none => exact clause_skip hr (hroute rfl)
    | some r =>
      apply clause_take
      exact routeHosts_toks (hw.route r rfl) hr fun k hk => hout k (by revert k; decide)
  have hon : clause "on" word (clauseToks "on" (fun w => [.word w]) interface ++
      (clauseToks "route-to" routeToks route ++ rest)) =
        some (interface, clauseToks "route-to" routeToks route ++ rest) := by
    apply clause_toks (fun w _ => word_toks w _) hr₁
    simp only [List.mem_cons, not_or]
    exact ⟨by decide, hout _ (by decide)⟩
  have hquick := oneOf_flag (k := "quick") quick hr₂ (by
    simp only [List.mem_cons, not_or]
    exact ⟨by decide, by decide, hout _ (by decide)⟩)
  have hlog := oneOf_flag (k := "log") log hr₃ (by
    simp only [List.mem_cons, not_or]
    exact ⟨by decide, by decide, by decide, hout _ (by decide)⟩)
  have hdir := oneOf_pick hw.direction hr₄ (by
    simp only [List.mem_cons, not_or, List.not_mem_nil, or_false, forall_eq_or_imp, forall_eq]
    exact ⟨⟨by decide, by decide, by decide, by decide, hout _ (by decide)⟩,
      by decide, by decide, by decide, by decide, hout _ (by decide)⟩)
  have hact := action_toks hw.action hw.policy hr₅ (by
    simp only [List.mem_cons, not_or, List.not_mem_nil, or_false, forall_eq_or_imp, forall_eq]
    exact ⟨⟨by decide, by decide, by decide, by decide, by decide, by decide, hout _ (by decide)⟩,
      by decide, by decide, by decide, by decide, by decide, by decide, hout _ (by decide)⟩)
  unfold headToks filterHead
  simp only [List.append_assoc, hact, hdir, hlog, hquick, hon, hproute, Option.bind_eq_bind,
    Option.bind_some, Option.pure_def]

def optStateToks : Option (List Char × List Token) → List Token
  | none => []
  | some s => stateToks s

def optionsToks (o : RawOptions) : List Token :=
  clauseToks "rtable" (fun w => [.word w]) o.rtable ++
    (optStateToks o.state ++ clauseToks "label" (fun w => [.str w]) o.label)

structure RawOptions.WellFormed (o : RawOptions) : Prop where
  kind : ∀ s ∈ o.state, s.1 ∈ ["keep", "modulate", "synproxy"].map String.toList
  closed : ∀ s ∈ o.state, .sym ')' ∉ s.2

theorem Starts.optState {o : Option (List Char × List Token)}
    (h : ∀ s ∈ o, s.1 ∈ ["keep", "modulate", "synproxy"].map String.toList) :
    Starts ["keep", "modulate", "synproxy"] (optStateToks o) := by
  cases o with
  | none => exact .nil
  | some s =>
    obtain ⟨k, hk, he⟩ := List.mem_map.mp (h s rfl)
    rw [optStateToks, stateToks, ← he]
    exact .kw hk

theorem Starts.options {o : RawOptions} (hw : o.WellFormed) :
    Starts ["rtable", "keep", "modulate", "synproxy", "label"] (optionsToks o) :=
  Starts.clause.append ((Starts.optState hw.kind).append Starts.clause)

theorem filterOptions_toks {o : RawOptions} (hw : o.WellFormed) :
    filterOptions (optionsToks o) = some o := by
  obtain ⟨rtable, state, label⟩ := o
  have hr₁ : Starts ["label"] (clauseToks "label" (fun w => [Token.str w]) label) := Starts.clause
  have hr₂ : Starts ["keep", "modulate", "synproxy", "label"]
      (optStateToks state ++ clauseToks "label" (fun w => [Token.str w]) label) :=
    (Starts.optState hw.kind).append hr₁
  have hlabel : clause "label" text (clauseToks "label" (fun w => [Token.str w]) label) =
      some (label, []) := by
    cases label with
    | none => rfl
    | some w => exact clause_take rfl
  have hstate : stateClause (optStateToks state ++
      clauseToks "label" (fun w => [Token.str w]) label) =
        some (state, clauseToks "label" (fun w => [Token.str w]) label) := by
    cases state with
    | none => exact stateClause_skip hr₁ (by decide)
    | some s => exact stateClause_toks (hw.kind s rfl) (hw.closed s rfl) fun _ => hr₁
  have hrtable := clause_toks (o := rtable) (fun w _ => word_toks w _) hr₂ (k := "rtable")
    (by decide)
  unfold optionsToks filterOptions
  simp only [hrtable, hstate, hlabel, Option.bind_eq_bind, Option.bind_some, if_true]

/-- Neither has a second list of state options. -/
theorem filterOptions_second_list (hk : s.1 ∈ ["keep", "modulate", "synproxy"].map String.toList)
    (hc : .sym ')' ∉ s.2) (ho : s.2 ≠ []) (ts : List Token) :
    filterOptions (stateToks s ++ .sym '(' :: ts) = none := by
  have hr : Starts ["keep", "modulate", "synproxy"] (stateToks s ++ .sym '(' :: ts) := by
    obtain ⟨k, hk', he⟩ := List.mem_map.mp hk
    rw [stateToks, ← he]
    exact .kw hk'
  have hstate : stateClause (stateToks s ++ .sym '(' :: ts) = some (some s, .sym '(' :: ts) :=
    stateClause_toks hk hc fun h => (absurd h ho : Starts [] _)
  unfold filterOptions
  rw [clause_skip hr (by decide)]
  simp only [Option.bind_eq_bind, Option.bind_some]
  rw [hstate]
  rfl

theorem Starts.matchToks_src {m : RawMatch}
    (hf : ∀ w ∈ m.family, w ∈ ["inet", "inet6"].map String.toList) (hs : m.src.isSome) :
    Starts ["inet", "inet6", "proto", "from"] (Pf.matchToks m ++ rest) := by
  obtain ⟨h, hh⟩ := Option.isSome_iff_exists.mp hs
  unfold Pf.matchToks
  rw [hh, List.append_assoc, List.append_assoc]
  exact (Starts.pick hf).append (Starts.clause.append (.kw List.mem_cons_self))

/-- The head and the match clauses are read back, and the rest is left to the options. A
`route-to` in the rest needs a source clause, or it would be read with the head. -/
theorem filterRule_toks {h : RawHead} {m : RawMatch} (hh : h.WellFormed)
    (hf : ∀ w ∈ m.family, w ∈ ["inet", "inet6"].map String.toList) (hr : Starts js rest)
    (hjs : ∀ k ∈ js, k ∈ tailKeywords)
    (hd : ∀ k ∈ ["inet", "inet6", "proto", "from", "to"], k ∉ js)
    (hp : "port" ∈ js → ∃ d ∈ m.dst, d.port.isSome)
    (hs : m.src.isSome ∨ "route-to" ∉ js) :
    filterRule (headToks h ++ (matchToks m ++ rest)) =
      (filterOptions rest).map fun o => ⟨h, m, o⟩ := by
  have hmatch := matchClauses_toks hf hr hd hp
  have hhead : filterHead (headToks h ++ (matchToks m ++ rest)) =
      some (h, matchToks m ++ rest) := by
    rcases hs with hs | hs
    · exact filterHead_toks hh (Starts.matchToks_src hf hs) (fun _ => by decide) (by decide)
    · apply filterHead_toks hh (Starts.matchToks hf hr)
      · intro _ hm
        rcases List.mem_append.mp hm with hm | hm
        · revert hm
          decide
        · exact hs hm
      · intro k hk
        rcases List.mem_append.mp hk with hk | hk
        · have hall : ∀ k ∈ ["inet", "inet6", "proto", "from", "to"], k ∈ tailKeywords := by
            decide
          exact hall k hk
        · exact hjs k hk
  unfold filterRule
  simp only [hhead, hmatch, Option.bind_eq_bind, Option.bind_some, Option.pure_def]
  cases filterOptions rest <;> rfl

def translationToks (t : RawTranslation) : List Token :=
  .word t.kind :: (clauseToks "on" (fun w => [.word w]) t.interface ++
    (matchToks t.clauses ++ kw "-" :: .sym '>' :: t.target))

theorem translationRule_toks {t : RawTranslation} (hk : t.kind ∈ ["nat", "rdr"].map String.toList)
    (hf : ∀ w ∈ t.clauses.family, w ∈ ["inet", "inet6"].map String.toList) (ht : t.target ≠ []) :
    translationRule (translationToks t) = some t := by
  obtain ⟨kind, interface, m, target⟩ := t
  have hr : Starts ["-"] (kw "-" :: .sym '>' :: target) := .kw List.mem_cons_self
  have hmatch := matchClauses_toks hf hr (by decide) fun h => absurd h (by decide)
  have hon : clause "on" word (clauseToks "on" (fun w => [.word w]) interface ++
      (matchToks m ++ kw "-" :: .sym '>' :: target)) =
        some (interface, matchToks m ++ kw "-" :: .sym '>' :: target) :=
    clause_toks (fun w _ => word_toks w _) (Starts.matchToks hf hr) (by decide)
  have harrow : oneOf ["-"] (kw "-" :: .sym '>' :: target) =
      (some "-".toList, .sym '>' :: target) := oneOf_word (List.mem_map_of_mem List.mem_cons_self)
  dsimp only at ht
  unfold translationToks translationRule natOrRdr
  simp only [oneOf_word hk, hon, hmatch, harrow, optSym_take, ht, if_false, Option.bind_eq_bind,
    Option.bind_some, Option.some_or]

theorem clause_kw (k : String) (body : List Token → Option (α × List Token)) (ts : List Token) :
    clause k body (kw k :: ts) = (body ts).map fun p => (some p.1, p.2) := by
  have htake : oneOf [k] (kw k :: ts) = (some k.toList, ts) :=
    oneOf_word (List.mem_map_of_mem List.mem_cons_self)
  simp only [clause, htake]

theorem onlyAddress_toks {a : RawAddr} (hr : Starts js rest) :
    onlyAddress (addrToks a ++ rest) = if a.isAddress then some (a, rest) else none := by
  rw [onlyAddress, rawAddr_toks a hr, Option.filter_some]

theorem hostNoPort_toks (h : RawHost) (hr : Starts js rest) :
    hostNoPort (hostToks h ++ rest) = some ({ h with port := none },
      clauseToks "port" (fun w => [.word w]) h.port ++ rest) := by
  obtain ⟨neg, addr, port⟩ := h
  have haddr := rawAddr_toks addr ((Starts.clause (k := "port") (f := fun w => [Token.word w])
    (o := port)).append hr)
  unfold hostToks
  simp only [List.append_assoc]
  cases neg with
  | false =>
    simp only [Bool.false_eq_true, if_false, List.nil_append, hostNoPort, optSym_addr, haddr,
      Option.bind_eq_bind, Option.bind_some, Option.pure_def]
  | true =>
    simp only [if_true, List.singleton_append, hostNoPort, optSym_take, haddr,
      Option.bind_eq_bind, Option.bind_some, Option.pure_def]

theorem clause_proto_word (protos : Option (List (List Char))) (hr : Starts js rest)
    (hk : "proto" ∉ js) :
    clause "proto" word (clauseToks "proto" protocolToks protos ++ rest) =
      if ∀ ws ∈ protos, ws.length = 1 then some (protos.bind List.head?, rest) else none := by
  cases protos with
  | none =>
    rw [clauseToks, List.nil_append, clause_skip hr hk, if_pos (by rintro ws ⟨⟩)]
    rfl
  | some ws =>
    rw [clauseToks, List.cons_append, clause_kw]
    cases ws with
    | nil => rfl
    | cons w ws =>
      cases ws with
      | nil => rfl
      | cons w' ws =>
        rw [if_neg]
        · rfl
        · intro h
          have hlen := h _ rfl
          simp only [List.length_cons] at hlen
          omega

theorem binatHosts_toks (src : RawAddr) (port : Option (List Char)) (dst : RawHost)
    (hr : Starts js rest) :
    binatHosts (kw "from" :: (hostToks ⟨false, src, port⟩ ++ kw "to" :: (hostToks dst ++ rest))) =
      if src.isAddress ∧ port = none then
        some ((src, { dst with port := none }),
          clauseToks "port" (fun w => [.word w]) dst.port ++ rest)
      else none := by
  have hto : Starts ["to"] (kw "to" :: (hostToks dst ++ rest)) := .kw List.mem_cons_self
  have hport : Starts ["port", "to"] (clauseToks "port" (fun w => [.word w]) port ++
      kw "to" :: (hostToks dst ++ rest)) := Starts.clause.append hto
  have hsrc : hostToks ⟨false, src, port⟩ = addrToks src ++
      clauseToks "port" (fun w => [.word w]) port := rfl
  unfold binatHosts
  rw [hsrc, List.append_assoc, clause_kw, onlyAddress_toks hport]
  by_cases ha : src.isAddress
  · cases port with
    | none =>
      simp only [ha, if_true, Option.map_some, Option.bind_eq_bind, Option.bind_some, clauseToks,
        List.nil_append, clause_kw, hostNoPort_toks dst hr, and_self]
      rfl
    | some w =>
      have hskip : clause "to" hostNoPort (kw "port" :: ([.word w] ++
          kw "to" :: (hostToks dst ++ rest))) = some (none, _) :=
        clause_skip (.kw List.mem_cons_self : Starts ["port"] _) (by decide)
      simp only [ha, if_true, Option.map_some, Option.bind_eq_bind, Option.bind_some, clauseToks,
        List.cons_append, List.nil_append] at hskip ⊢
      rw [hskip]
      rfl
  · simp only [ha, Bool.false_eq_true, if_false, false_and]
    rfl

theorem binatTarget_toks {target : RawAddr} :
    binatTarget (clauseToks "port" (fun w => [.word w]) port ++ kw "-" :: .sym '>' ::
      (addrToks target ++ clauseToks "port" (fun w => [.word w]) targetPort)) =
        if port = none ∧ target.isAddress ∧ targetPort = none then some (addrToks target)
        else none := by
  cases port with
  | some w =>
    have hskip : oneOf ["-"] (kw "port" :: ([.word w] ++ kw "-" :: .sym '>' ::
        (addrToks target ++ clauseToks "port" (fun w => [.word w]) targetPort))) = (none, _) :=
      oneOf_skip (.kw List.mem_cons_self : Starts ["port"] _) (by decide)
    unfold binatTarget
    simp only [clauseToks, List.cons_append] at hskip ⊢
    rw [hskip]
    rfl
  | none =>
    have harrow (ts : List Token) : oneOf ["-"] (kw "-" :: ts) = (some "-".toList, ts) :=
      oneOf_word (List.mem_map_of_mem List.mem_cons_self)
    have haddr := onlyAddress_toks (a := target) (Starts.clause (k := "port")
      (f := fun w => [Token.word w]) (o := targetPort))
    have hnil : clauseToks "port" (fun w => [Token.word w]) none = [] := rfl
    unfold binatTarget
    rw [hnil, List.nil_append, harrow]
    simp only [optSym_take, haddr]
    by_cases ha : target.isAddress
    · cases targetPort with
      | none => simp [ha, clauseToks]
      | some w => simp [ha, clauseToks]
    · simp [ha]

/-- What there is room for in the clauses and the target of a binat line. -/
abbrev OneToOne (protos : Option (List (List Char))) (src : RawAddr) (srcPort : Option (List Char))
    (dst : RawHost) (target : RawAddr) (targetPort : Option (List Char)) : Prop :=
  (∀ ws ∈ protos, ws.length = 1) ∧ src.isAddress ∧ srcPort = none ∧ dst.port = none ∧
    target.isAddress ∧ targetPort = none

theorem map_head_of_length (h : ∀ ws ∈ protos, ws.length = 1) :
    (Option.bind protos List.head?).map (fun w : List Char => [w]) = protos := by
  cases protos with
  | none => rfl
  | some ws =>
    obtain ⟨w, rfl⟩ := List.length_eq_one_iff.mp (h ws rfl)
    rfl

/-- A binat line with more than there is room for is refused, and any other is read back. -/
theorem binat_toks (interface : Option (List Char)) (protos : Option (List (List Char)))
    (src : RawAddr) (srcPort : Option (List Char)) (dst : RawHost) (target : RawAddr)
    (targetPort : Option (List Char))
    (hf : ∀ w ∈ family, w ∈ ["inet", "inet6"].map String.toList) :
    let t : RawTranslation := ⟨"binat".toList, interface,
      ⟨family, protos, some ⟨false, src, srcPort⟩, some dst⟩,
      addrToks target ++ clauseToks "port" (fun w => [.word w]) targetPort⟩
    binat (translationToks t) =
      if OneToOne protos src srcPort dst target targetPort then some t else none := by
  intro t
  obtain ⟨neg, addr, port⟩ := dst
  have hrest : Starts ["-"] (kw "-" :: .sym '>' :: (addrToks target ++
      clauseToks "port" (fun w => [.word w]) targetPort)) := .kw List.mem_cons_self
  have hhosts := binatHosts_toks src srcPort ⟨neg, addr, port⟩ hrest
  have hfrom : Starts ["from"] (kw "from" :: (hostToks ⟨false, src, srcPort⟩ ++ kw "to" ::
      (hostToks ⟨neg, addr, port⟩ ++ kw "-" :: .sym '>' :: (addrToks target ++
        clauseToks "port" (fun w => [.word w]) targetPort)))) := .kw List.mem_cons_self
  have hproto := clause_proto_word protos hfrom (by decide)
  have hstart := (Starts.clause (k := "proto") (f := protocolToks) (o := protos)).append hfrom
  have hfam := oneOf_pick hf hstart (by decide)
  have hon := clause_toks (o := interface) (fun w _ => word_toks w _)
    ((Starts.pick hf).append hstart) (k := "on") (by decide)
  have hkind (ts : List Token) : oneOf ["binat"] (.word "binat".toList :: ts) =
      (some "binat".toList, ts) := oneOf_word (List.mem_map_of_mem List.mem_cons_self)
  have htoks : translationToks t = .word "binat".toList :: (clauseToks "on" (fun w => [.word w])
      interface ++ (pickToks family ++ (clauseToks "proto" protocolToks protos ++
        kw "from" :: (hostToks ⟨false, src, srcPort⟩ ++ kw "to" :: (hostToks ⟨neg, addr, port⟩ ++
          kw "-" :: .sym '>' :: (addrToks target ++ clauseToks "port" (fun w => [.word w])
            targetPort)))))) := by
    simp only [t, translationToks, matchToks, List.append_assoc]
    rfl
  rw [htoks]
  unfold binat
  rw [hkind]
  simp only [Option.bind_eq_bind, Option.bind_some, hon, hfam, hproto]
  by_cases hone : ∀ ws ∈ protos, ws.length = 1
  · simp only [if_pos hone, Option.bind_some, hhosts]
    by_cases hsrc : src.isAddress ∧ srcPort = none
    · simp only [if_pos hsrc, Option.bind_some, binatTarget_toks]
      by_cases htarget : port = none ∧ target.isAddress ∧ targetPort = none
      · rw [if_pos htarget, if_pos ⟨hone, hsrc.1, hsrc.2, htarget⟩]
        simp only [t, hsrc.2, htarget.1, htarget.2.2, clauseToks, List.append_nil,
          Option.bind_some, map_head_of_length hone, Option.pure_def]
      · rw [if_neg htarget, if_neg fun h => htarget h.2.2.2]
        rfl
    · rw [if_neg hsrc, if_neg fun h => hsrc ⟨h.2.1, h.2.2.1⟩]
      rfl
  · rw [if_neg hone, if_neg fun h => hone h.1]
    rfl

end AiFw.Pf
