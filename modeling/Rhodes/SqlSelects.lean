import Rhodes.RhomSql
import Rhodes.RhomStatements

/-!
Texts of SELECTs from object_values that are put together from pieces: one SELECT, more of them with
INTERSECT or UNION ALL between them, and a limit behind the last.
-/
namespace Rhodes.SqlSelects

open SqlToken SqlPieces SqlGrammar RhomSql RhomStatements

/-- The pieces of one SELECT. -/
structure CoreReads (ps : List Piece) (c : Core) : Prop where
  spaced : Spaced ps
  tokens : tokensOf ps = kw "select" :: c.tokens
  plain : ∀ p ∈ ps, p.Plain

/-- The pieces of a WHERE clause. -/
structure CondsRead (ps : List Piece) (conds : Items Cond) : Prop where
  spaced : Spaced ps
  tokens : tokensOf ps = conds.tokens (kw "and") Cond.tokens
  plain : ∀ p ∈ ps, p.Plain

/-- A SELECT of columns from object_values as it is written in find. -/
def corePieces (words : List String) (cols : Items Ident) (conds : List Piece) : List Piece :=
  headPieces words ++ (commaPieces (fun c : Ident => [.word c.name]) cols.head cols.tail ++
    ([.gap ' '] ++ (headPieces ["FROM", "object_values", "WHERE"] ++ ([.gap '\n'] ++ conds))))

theorem colsPieces_spaced (cols : Items Ident) :
    Spaced (commaPieces (fun c : Ident => [Piece.word c.name]) cols.head cols.tail) := by
  refine commaPieces_spaced (fun i => ⟨?_, .singleton _⟩) _ _
  intro p hp
  rw [List.mem_singleton.mp hp]
  exact isWord_name i

theorem colsPieces_tokens (cols : Items Ident) :
    tokensOf (commaPieces (fun c : Ident => [Piece.word c.name]) cols.head cols.tail) =
      identTokens cols :=
  tokensOf_commaPieces (fun i => by rw [tokensOf_cons, tokens_word]; rfl) _ _

theorem colsPieces_plain (cols : Items Ident) :
    ∀ p ∈ commaPieces (fun c : Ident => [Piece.word c.name]) cols.head cols.tail, p.Plain := by
  rw [commaPieces_plain]
  intro i _ p hp
  rw [List.mem_singleton.mp hp]
  trivial

/-- After a gap everything may stand. -/
theorem gap_spaced {c : Char} (hc : c = ' ' ∨ c = '\n') {ps : List Piece} (h : Spaced ps) :
    Spaced ([.gap c] ++ ps) ∧ Opens ([.gap c] ++ ps) := by
  have hgap : Spaced [.gap c] := by
    refine ⟨?_, .singleton _⟩
    intro p hp
    rw [List.mem_singleton.mp hp]
    simpa [Piece.Ok] using hc
  refine ⟨spaced_append hgap h ?_, ?_⟩
  · rintro p hp q -
    cases hp
    rfl
  · rintro q hq
    cases hq
    rfl

/-- The words of a SELECT, with or without distinct. -/
def selectWords (distinct : Bool) : List String :=
  if distinct then ["SELECT", "distinct"] else ["SELECT"]

theorem coreReads (distinct : Bool) (cols : Items Ident) {ps : List Piece} {conds : Items Cond}
    (h : CondsRead ps conds) : CoreReads (corePieces (selectWords distinct) cols ps)
      ⟨distinct, cols, objectValuesId, some conds⟩ := by
  obtain ⟨htail, htailOpens⟩ := gap_spaced (Or.inl rfl)
    (headPieces_spaced (by decide : ∀ w ∈ ["FROM", "object_values", "WHERE"],
      Piece.isWord w.toList = true) (gap_spaced (Or.inr rfl) h.spaced).1)
  refine ⟨?_, ?_, ?_⟩
  · refine headPieces_spaced ?_ ((colsPieces_spaced cols).append htail htailOpens)
    cases distinct <;> decide
  · have hwords : tokensOf (headPieces (selectWords distinct)) =
        kw "select" :: (if distinct then [kw "distinct"] else []) := by
      cases distinct <;> decide
    have hfrom : tokensOf (headPieces ["FROM", "object_values", "WHERE"]) =
        [kw "from", objectValuesId.token, kw "where"] := by decide
    have hgap : ∀ c, tokensOf [Piece.gap c] = [] := fun c => rfl
    simp only [corePieces, tokensOf_append, hwords, colsPieces_tokens, hfrom, hgap, h.tokens]
    simp [Core.tokens, whereTokens]
  · unfold corePieces
    rw [headPieces_plain]
    refine List.forall_mem_append.mpr ⟨colsPieces_plain cols, ?_⟩
    refine List.forall_mem_append.mpr ⟨by simp [Piece.Plain], ?_⟩
    rw [headPieces_plain]
    exact List.forall_mem_append.mpr ⟨by simp [Piece.Plain], h.plain⟩

/-- What stands between two SELECTs. -/
def opPieces : Compound → List Piece
  | .intersect => [.gap '\n', .word "INTERSECT", .gap '\n']
  | .unionAll => [.gap '\n', .word "UNION", .gap ' ', .word "ALL", .gap '\n']

def limitPieces : Option Limit → List Piece
  | none => []
  | some l => [.gap ' ', .word "LIMIT", .gap ' ', .number l.limit, .gap ' ', .word "OFFSET",
      .gap ' ', .number l.offset]

/-- The text of one SELECT behind another one. -/
structure Branch where
  op : Compound
  pieces : List Piece
  core : Core

def Branch.allPieces (b : Branch) : List Piece := opPieces b.op ++ b.pieces

/-- A compound without its limit. -/
def compoundPieces (ps : List Piece) (bs : List Branch) : List Piece :=
  ps ++ bs.flatMap Branch.allPieces

theorem opPieces_spaced (op : Compound) {ps : List Piece} (h : Spaced ps) :
    Spaced (opPieces op ++ ps) ∧ Opens (opPieces op ++ ps) := by
  refine ⟨spaced_append ?_ h ?_, ?_⟩
  · cases op <;> decide
  · rintro p hp q -
    cases op <;> cases hp <;> rfl
  · rintro q hq
    cases op <;> cases hq <;> rfl

theorem opPieces_tokens (op : Compound) {ps : List Piece} {c : Core}
    (h : tokensOf ps = kw "select" :: c.tokens) :
    tokensOf (opPieces op ++ ps) = op.tokens ++ c.tokens := by
  have hop : tokensOf (opPieces op) ++ [kw "select"] = op.tokens := by
    cases op <;> decide
  rw [tokensOf_append, h, ← hop, List.append_assoc]
  rfl

theorem opPieces_plain (op : Compound) : ∀ p ∈ opPieces op, p.Plain := by
  cases op <;> simp [opPieces, Piece.Plain]

theorem limitPieces_spaced (l : Option Limit) : Spaced (limitPieces l) ∧ Opens (limitPieces l) := by
  cases l with
  | none => exact ⟨spaced_nil, fun q hq => by cases hq⟩
  | some l =>
    refine ⟨⟨?_, ?_⟩, ?_⟩
    · simp [limitPieces, Piece.Ok, Piece.isWord]
    · simp [limitPieces, Piece.Allows, Piece.separates]
    · rintro q hq
      cases hq
      rfl

theorem limitPieces_tokens (l : Option Limit) : tokensOf (limitPieces l) = limitTokens l := by
  have hwords : (Piece.word "LIMIT").tokens = [kw "limit"] ∧
      (Piece.word "OFFSET").tokens = [kw "offset"] := by decide
  cases l with
  | none => rfl
  | some l =>
    simp only [limitPieces, tokensOf_cons, tokensOf_nil, hwords]
    rfl

theorem limitPieces_plain (l : Option Limit) : ∀ p ∈ limitPieces l, p.Plain := by
  cases l <;> simp [limitPieces, Piece.Plain]

section Compounds

variable {ps : List Piece} {c : Core} (h : CoreReads ps c) {bs : List Branch}
  (hbs : ∀ b ∈ bs, CoreReads b.pieces b.core) (l : Option Limit)

/-- The SELECT that a compound of texts stands for. -/
def selectOf (c : Core) (bs : List Branch) (l : Option Limit) : Select :=
  ⟨c, bs.map (fun b => (b.op, b.core)), l⟩

include h hbs

theorem spells_select {sql : String}
    (hsql : sql.toList = render (compoundPieces ps bs ++ limitPieces l)) :
    Spells sql (.select (selectOf c bs l)) := by
  obtain ⟨hrest, hrestOpens⟩ := spaced_flatMap bs Branch.allPieces
    (fun b hb => opPieces_spaced b.op (hbs b hb).spaced)
  have hspaced : Spaced (compoundPieces ps bs ++ limitPieces l) :=
    (h.spaced.append hrest hrestOpens).append (limitPieces_spaced l).1 (limitPieces_spaced l).2
  have hrestTokens : tokensOf (bs.flatMap Branch.allPieces) =
      (bs.map (fun b => (b.op, b.core))).flatMap (fun r => r.1.tokens ++ r.2.tokens) := by
    clear hrest hrestOpens hspaced hsql
    induction bs with
    | nil => rfl
    | cons b bs ih =>
      obtain ⟨hb, hbs⟩ := List.forall_mem_cons.mp hbs
      rw [List.flatMap_cons, tokensOf_append, ih hbs, Branch.allPieces,
        opPieces_tokens b.op hb.tokens]
      rfl
  have htokens : (Stmt.select (selectOf c bs l)).tokens =
      tokensOf (compoundPieces ps bs ++ limitPieces l) := by
    rw [tokensOf_append, compoundPieces, tokensOf_append, h.tokens, hrestTokens,
      limitPieces_tokens]
    simp [Stmt.tokens, Select.tokens, selectOf]
  rw [Spells, htokens, lexText_render_iff hspaced hsql]
  refine List.forall_mem_append.mpr ⟨List.forall_mem_append.mpr ⟨h.plain, ?_⟩, limitPieces_plain l⟩
  intro p hp
  obtain ⟨b, hb, hp'⟩ := List.mem_flatMap.mp hp
  exact (List.forall_mem_append.mpr ⟨opPieces_plain b.op, (hbs b hb).plain⟩) p hp'

end Compounds

end Rhodes.SqlSelects
