import Mathlib.Data.List.Chain
import QueryForms.Proofs.Sql.Placeholder

/-!
# The stream of a fragment

A fragment keeps its texts and placeholders as pieces and the parameters apart. Its stream
(`Fragment.stream`) puts them together again: the characters of the texts in order, with each
parameter in the place of its placeholder. Every operation on fragments is one on streams: appending
is one stream after the other (`Fragment.Balanced.stream_append`), as long as placeholders and
parameters are in step.

What operations build (`Fragment.Built`) is in step and canonical: it has no empty text and no two
texts side by side (`Piece.Canonical`). Canonical pieces can be read off their stream
(`Piece.ofStream_stream`), so fragments are the same exactly if their streams are, and form a monoid
(`fragments_form_monoid`).
-/

namespace QueryForms

/-- A unit of a stream: a character of the text or a parameter. -/
inductive StreamUnit where
  /-- A character. -/
  | char (c : Char)
  /-- A parameter in the place of its placeholder. -/
  | param (v : Value)

namespace StreamUnit

/-- Whether two units are the same. -/
def beq : StreamUnit → StreamUnit → Bool
  | char c, char d => c == d
  | param v, param w => v == w
  | _, _ => false

instance : BEq StreamUnit := ⟨beq⟩

/-- Two units are the same character, or parameters that belong together. -/
inductive Related (R : Value → Value → Prop) : StreamUnit → StreamUnit → Prop where
  | char (c : Char) : Related R (.char c) (.char c)
  | param {v w : Value} (h : R v w) : Related R (.param v) (.param w)

theorem related_eq_iff {u v : StreamUnit} : u.Related Eq v ↔ u = v := by
  constructor
  · rintro (_ | rfl) <;> rfl
  · rintro rfl
    cases u with
    | char c => exact .char c
    | param v => exact .param rfl

theorem related_beq_iff {u v : StreamUnit} :
    u.Related (fun v w => (v == w) = true) v ↔ (u == v) = true := by
  constructor
  · rintro (c | h)
    · exact beq_self_eq_true c
    · exact h
  · intro same
    cases u <;> cases v <;> try cases same
    · obtain rfl := eq_of_beq (α := Char) same
      exact .char _
    · exact .param same

/-- Two streams are the same if they are unit by unit. -/
theorem forall₂_related_beq_iff {us vs : List StreamUnit} :
    List.Forall₂ (Related fun v w => (v == w) = true) us vs ↔ (us == vs) = true := by
  induction us generalizing vs with
  | nil => cases vs <;> simp
  | cons u us ih =>
    cases vs with
    | nil => simp
    | cons v vs => rw [List.forall₂_cons, List.cons_beq_cons, Bool.and_eq_true, related_beq_iff, ih]

/-- The parameter of a unit. -/
def param? : StreamUnit → Option Value
  | char _ => none
  | param v => some v

/-- Related streams have related parameters. -/
theorem forall₂_filterMap {R : Value → Value → Prop} {us vs : List StreamUnit}
    (h : List.Forall₂ (Related R) us vs) :
    List.Forall₂ R (us.filterMap param?) (vs.filterMap param?) := by
  induction h with
  | nil => exact .nil
  | cons first _ ih =>
    cases first with
    | char c => exact ih
    | param same => exact .cons same ih

/-- The characters of a text. -/
def ofText (s : String) : List StreamUnit :=
  s.toList.map char

theorem ofText_append (s t : String) : ofText (s ++ t) = ofText s ++ ofText t := by
  rw [ofText, String.toList_append, List.map_append, ofText, ofText]

end StreamUnit

open StreamUnit (ofText)

/-! ## Pieces -/

namespace Piece

/-- The stream of pieces, with a parameter for each placeholder in turn. -/
def stream : List Piece → List Value → List StreamUnit
  | [], _ => []
  | .text s :: rest, params => ofText s ++ stream rest params
  | .placeholder :: rest, v :: params => .param v :: stream rest params
  | .placeholder :: rest, [] => stream rest []

theorem stream_pushText (pieces : List Piece) (params : List Value) (s : String) :
    stream (pushText pieces s) params = stream pieces params ++ ofText s := by
  induction pieces generalizing params with
  | nil => by_cases h : s = "" <;> simp [pushText, stream, h, ofText]
  | cons piece rest ih =>
    by_cases last : rest = []
    · subst last
      cases piece with
      | text t => simp [pushText, stream, StreamUnit.ofText_append]
      | placeholder =>
        have step : pushText [.placeholder] s = .placeholder :: pushText [] s := rfl
        rw [step]
        cases params <;> simp [stream, ih]
    · rw [pushText_cons last]
      cases piece with
      | text t => rw [stream, stream, ih, List.append_assoc]
      | placeholder => cases params <;> simp [stream, ih]

/-- A placeholder at the end takes the next parameter. -/
theorem stream_placeholder {pieces : List Piece} {params : List Value}
    (step : pieces.count .placeholder = params.length) (v : Value) :
    stream (pieces ++ [.placeholder]) (params ++ [v]) = stream pieces params ++ [.param v] := by
  induction pieces generalizing params with
  | nil =>
    obtain rfl := List.eq_nil_of_length_eq_zero step.symm
    rfl
  | cons piece rest ih =>
    cases piece with
    | text s => simpa [stream] using ih (by simpa using step)
    | placeholder =>
      cases params with
      | nil => simp at step
      | cons w params => simpa [stream] using ih (by simpa using step)

/-- Where placeholders and parameters are in step, added pieces add their stream. -/
theorem stream_append {pieces added : List Piece} {params more : List Value}
    (step : pieces.count .placeholder = params.length)
    (stepAdded : added.count .placeholder = more.length) :
    stream (append pieces added) (params ++ more) = stream pieces params ++ stream added more := by
  -- the pieces so far are general, as they grow along those that are added
  induction added generalizing pieces params more with
  | nil =>
    obtain rfl := List.eq_nil_of_length_eq_zero stepAdded.symm
    simp [append, stream]
  | cons piece rest ih =>
    cases piece with
    | text s =>
      refine (ih ((Fragment.count_pushText pieces s).trans step)
        (by simpa using stepAdded)).trans ?_
      rw [stream_pushText, stream, List.append_assoc]
    | placeholder =>
      cases more with
      | nil => simp at stepAdded
      | cons v more =>
        have grown : (push pieces .placeholder).count .placeholder = (params ++ [v]).length := by
          simp [push, step]
        rw [List.append_cons]
        refine (ih grown (by simpa using stepAdded)).trans ?_
        rw [push, stream_placeholder step, stream, List.append_assoc, List.singleton_append]

theorem filterMap_stream {pieces : List Piece} {params : List Value}
    (step : pieces.count .placeholder = params.length) :
    (stream pieces params).filterMap StreamUnit.param? = params := by
  induction pieces generalizing params with
  | nil => exact (List.eq_nil_of_length_eq_zero step.symm).symm
  | cons piece rest ih =>
    cases piece with
    | text s =>
      have none : (ofText s).filterMap StreamUnit.param? = [] := by
        simp [ofText, List.filterMap_map, Function.comp_def, StreamUnit.param?]
      rw [stream, List.filterMap_append, none, List.nil_append, ih (by simpa using step)]
    | placeholder =>
      cases params with
      | nil => simp at step
      | cons v params => simpa [stream, StreamUnit.param?] using ih (by simpa using step)

/-! ## Canonical pieces -/

/-- No piece is an empty text, and no two texts are neighbours. -/
structure Canonical (pieces : List Piece) : Prop where
  /-- Every text has a character. -/
  filled : ∀ piece ∈ pieces, piece ≠ .text ""
  /-- Of two neighbours one is a placeholder. -/
  apart : pieces.IsChain fun a b => a = .placeholder ∨ b = .placeholder

theorem canonical_nil : Canonical [] :=
  ⟨nofun, .nil⟩

theorem Canonical.tail {piece : Piece} {rest : List Piece} (h : Canonical (piece :: rest)) :
    Canonical rest :=
  ⟨fun p hp => h.filled p (List.mem_cons_of_mem _ hp), (List.isChain_cons.1 h.apart).2⟩

theorem pushText_concat_text (pieces : List Piece) (t s : String) :
    pushText (pieces ++ [.text t]) s = pieces ++ [.text (t ++ s)] := by
  induction pieces with
  | nil => rfl
  | cons piece rest ih =>
    rw [List.cons_append, pushText_cons (List.concat_ne_nil _ _), ih, List.cons_append]

theorem pushText_concat_placeholder {s : String} (filled : s ≠ "") (pieces : List Piece) :
    pushText (pieces ++ [.placeholder]) s = pieces ++ [.placeholder] ++ [.text s] := by
  induction pieces with
  | nil => simp [pushText, filled]
  | cons piece rest ih =>
    rw [List.cons_append, pushText_cons (List.concat_ne_nil _ _), ih]
    rfl

/-- Text at the end joins the text before it, or stands behind a placeholder. -/
theorem Canonical.pushText {pieces : List Piece} (h : Canonical pieces) (s : String) :
    Canonical (pushText pieces s) := by
  by_cases filled : s = ""
  · rwa [filled, pushText_empty]
  rcases pieces.eq_nil_or_concat with rfl | ⟨before, last, rfl⟩
  · simp only [Piece.pushText, if_neg filled]
    exact ⟨List.forall_mem_singleton.2 fun same => filled (Piece.text.inj same), .singleton _⟩
  rw [List.concat_eq_append] at h ⊢
  cases last with
  | text t =>
    rw [pushText_concat_text]
    obtain ⟨others, -⟩ := List.forall_mem_append.1 h.filled
    obtain ⟨chain, -, seam⟩ := List.isChain_append.1 h.apart
    refine ⟨List.forall_mem_append.2 ⟨others, List.forall_mem_singleton.2 fun same => ?_⟩,
      List.isChain_append.2 ⟨chain, .singleton _, fun p hp q hq => ?_⟩⟩
    · exact filled (String.append_eq_empty_iff.1 (Piece.text.inj same)).2
    · obtain rfl := Option.some.inj hq
      have other : Piece.text t ≠ .placeholder := by simp
      exact .inl ((seam p hp (.text t) rfl).resolve_right other)
  | placeholder =>
    rw [pushText_concat_placeholder filled]
    refine ⟨List.forall_mem_append.2 ⟨h.filled, List.forall_mem_singleton.2 fun same => ?_⟩,
      List.isChain_append.2 ⟨h.apart, .singleton _, fun p hp q _ => ?_⟩⟩
    · exact filled (Piece.text.inj same)
    · rw [List.getLast?_concat] at hp
      exact .inl (Option.some.inj hp).symm

theorem Canonical.placeholder {pieces : List Piece} (h : Canonical pieces) :
    Canonical (pieces ++ [.placeholder]) where
  filled := List.forall_mem_append.2 ⟨h.filled, List.forall_mem_singleton.2 nofun⟩
  apart := List.isChain_append.2 ⟨h.apart, .singleton _, by simp⟩

/-- Pieces added to canonical ones leave them so, whatever is added. -/
theorem Canonical.append {pieces : List Piece} (h : Canonical pieces) (added : List Piece) :
    Canonical (append pieces added) :=
  List.foldlRecOn added push h fun pieces h piece _ => by
    cases piece with
    | text s => exact h.pushText s
    | placeholder => exact h.placeholder

/-! ## Reading pieces off a stream -/

/-- A character in front of pieces; it joins a text that they begin with. -/
def consChar (c : Char) : List Piece → List Piece
  | .text s :: rest => .text (String.ofList (c :: s.toList)) :: rest
  | pieces => .text (String.ofList [c]) :: pieces

/-- The canonical pieces of a stream. -/
def ofStream : List StreamUnit → List Piece
  | [] => []
  | .char c :: rest => consChar c (ofStream rest)
  | .param _ :: rest => .placeholder :: ofStream rest

/-- Characters in front of pieces that begin with no text are a text of their own. -/
theorem ofStream_chars {c : Char} {cs : List Char} {rest : List StreamUnit}
    (apart : ∀ s more, ofStream rest ≠ .text s :: more) :
    ofStream ((c :: cs).map .char ++ rest) = .text (String.ofList (c :: cs)) :: ofStream rest := by
  induction cs generalizing c with
  | nil =>
    show consChar c (ofStream rest) = _
    rw [consChar.eq_def]
    split
    · next s more begins => exact absurd begins (apart s more)
    · rfl
  | cons d ds ih =>
    show consChar c (ofStream ((d :: ds).map .char ++ rest)) = _
    rw [ih, consChar, String.toList_ofList]

/-- Canonical pieces are those of their stream. -/
theorem Canonical.ofStream_stream {pieces : List Piece} {params : List Value}
    (h : Canonical pieces) (step : pieces.count .placeholder = params.length) :
    ofStream (stream pieces params) = pieces := by
  induction pieces generalizing params with
  | nil => rfl
  | cons piece rest ih =>
    cases piece with
    | text s =>
      have later : ofStream (stream rest params) = rest := ih h.tail (by simpa using step)
      have apart : ∀ t more, ofStream (stream rest params) ≠ .text t :: more := by
        intro t more begins
        rw [later] at begins
        subst begins
        exact absurd (List.isChain_cons_cons.1 h.apart).1 (by simp)
      cases chars : s.toList with
      | nil =>
        exact absurd (congrArg Piece.text (String.toList_eq_nil_iff.1 chars))
          (h.filled _ (List.mem_cons_self ..))
      | cons c cs =>
        rw [stream, ofText, chars, ofStream_chars apart, later, ← chars, String.ofList_toList]
    | placeholder =>
      cases params with
      | nil => simp at step
      | cons v params => rw [stream, ofStream, ih h.tail (by simpa using step)]

/-- Streams of related units have the same canonical pieces. -/
theorem ofStream_congr {R : Value → Value → Prop} {us vs : List StreamUnit}
    (h : List.Forall₂ (StreamUnit.Related R) us vs) : ofStream us = ofStream vs := by
  induction h with
  | nil => rfl
  | cons first _ ih => cases first <;> simp only [ofStream, ih]

/-- The same pieces have related streams with related parameters. -/
theorem forall₂_stream {R : Value → Value → Prop} (pieces : List Piece) {params more : List Value}
    (h : List.Forall₂ R params more) :
    List.Forall₂ (StreamUnit.Related R) (stream pieces params) (stream pieces more) := by
  induction pieces generalizing params more with
  | nil => exact .nil
  | cons piece rest ih =>
    cases piece with
    | text s =>
      have chars : List.Forall₂ (StreamUnit.Related R) (ofText s) (ofText s) :=
        List.forall₂_same.2 (List.forall_mem_map.2 fun c _ => .char c)
      exact List.rel_append chars (ih h)
    | placeholder =>
      cases h with
      | nil => exact ih .nil
      | cons first later => exact .cons (.param first) (ih later)

/-- Canonical pieces are the same, with related parameters, exactly if the units of their streams
are related. -/
theorem forall₂_stream_iff (R : Value → Value → Prop) {pieces others : List Piece}
    {params more : List Value} (h : Canonical pieces) (ho : Canonical others)
    (step : pieces.count .placeholder = params.length)
    (stepOther : others.count .placeholder = more.length) :
    List.Forall₂ (StreamUnit.Related R) (stream pieces params) (stream others more)
      ↔ pieces = others ∧ List.Forall₂ R params more := by
  constructor
  · intro related
    rw [← h.ofStream_stream step, ← ho.ofStream_stream stepOther, ofStream_congr related,
      ← filterMap_stream step, ← filterMap_stream stepOther]
    exact ⟨rfl, StreamUnit.forall₂_filterMap related⟩
  · rintro ⟨rfl, related⟩
    exact forall₂_stream pieces related

end Piece

/-! ## Fragments -/

namespace Fragment

/-- The characters of the text of a fragment, each parameter in the place of its placeholder. -/
def stream (f : Fragment) : List StreamUnit :=
  Piece.stream f.pieces f.params

/-- What the operations on fragments build. -/
inductive Built : Fragment → Prop where
  | empty : Built .empty
  | ofText (s : String) : Built (.ofText s)
  | ofParam (v : Value) : Built (.ofParam v)
  | pushText {f : Fragment} (hf : Built f) (s : String) : Built (f.pushText s)
  | pushParam {f : Fragment} (hf : Built f) (v : Value) : Built (f.pushParam v)
  | append {f g : Fragment} (hf : Built f) (hg : Built g) : Built (f.append g)
  | join (separator : String) {parts : List Fragment} (hp : ∀ f ∈ parts, Built f) :
    Built (.join separator parts)
  | wrapped {f : Fragment} (hf : Built f) (opening closing : String) :
    Built (f.wrapped opening closing)
  | asQuery {f : Fragment} (hf : Built f) : Built f.asQuery

theorem Balanced.pushParam {f : Fragment} (h : f.Balanced) (v : Value) :
    (f.pushParam v).Balanced := by
  rw [Balanced, Fragment.pushParam, List.count_append, List.length_append, h]
  rfl

namespace Built

variable {f : Fragment}

/-- What operations build has a parameter for each placeholder. -/
theorem balanced (h : f.Built) : f.Balanced := by
  induction h with
  | empty => rfl
  | ofText s => exact balanced_ofText s
  | ofParam v => rfl
  | pushText _ s ih => exact ih.pushText s
  | pushParam _ v ih => exact ih.pushParam v
  | append _ _ ihf ihg => exact ihf.append ihg
  | join separator _ ih =>
    have started : Balanced .empty := rfl
    exact join_of (P := Balanced) started (fun _ hf => started.append hf)
      (fun _ _ hf hg => (hf.pushText separator).append hg) ih
  | wrapped _ opening closing ih => exact ih.wrapped opening closing
  | asQuery _ ih => exact ih

/-- What operations build is canonical. -/
theorem canonical (h : f.Built) : Piece.Canonical f.pieces := by
  induction h with
  | empty => exact Piece.canonical_nil
  | ofText s => exact Piece.canonical_nil.pushText s
  | ofParam v => exact Piece.canonical_nil.placeholder
  | pushText _ s ih => exact ih.pushText s
  | pushParam _ v ih => exact ih.placeholder
  | append _ _ ihf _ => exact ihf.append _
  | join separator _ ih =>
    exact join_of (P := fun f => Piece.Canonical f.pieces) Piece.canonical_nil
      (fun f _ => Piece.canonical_nil.append f.pieces)
      (fun _ g hf _ => (hf.pushText separator).append g.pieces) ih
  | wrapped _ opening closing _ =>
    exact ((Piece.canonical_nil.pushText opening).append _).pushText closing
  | asQuery _ ih => exact ih

end Built

/-! ## Operations on streams -/

theorem stream_ofText (s : String) : (ofText s).stream = StreamUnit.ofText s :=
  Piece.stream_pushText [] [] s

theorem stream_pushText (f : Fragment) (s : String) :
    (f.pushText s).stream = f.stream ++ StreamUnit.ofText s :=
  Piece.stream_pushText f.pieces f.params s

section

variable {f g : Fragment}

theorem Balanced.stream_pushParam (hf : f.Balanced) (v : Value) :
    (f.pushParam v).stream = f.stream ++ [.param v] :=
  Piece.stream_placeholder hf v

/-- Of fragments that are in step, one appended to the other, the streams follow each other. -/
theorem Balanced.stream_append (hf : f.Balanced) (hg : g.Balanced) :
    (f.append g).stream = f.stream ++ g.stream :=
  Piece.stream_append hf hg

theorem Balanced.stream_wrapped (hf : f.Balanced) (opening closing : String) :
    (f.wrapped opening closing).stream
      = StreamUnit.ofText opening ++ f.stream ++ StreamUnit.ofText closing := by
  rw [Fragment.wrapped, stream_pushText, (balanced_ofText opening).stream_append hf, stream_ofText]

/-- Each fragment that is appended adds the separator and its own stream. -/
theorem stream_appendAll (separator : String) {parts : List Fragment} (hf : f.Balanced)
    (hp : ∀ g ∈ parts, g.Balanced) : (appendAll separator f parts).stream
      = f.stream ++ parts.flatMap fun g => StreamUnit.ofText separator ++ g.stream := by
  induction parts generalizing f with
  | nil => exact (List.append_nil _).symm
  | cons g rest ih =>
    obtain ⟨hg, others⟩ := List.forall_mem_cons.1 hp
    have grown : ((f.pushText separator).append g).Balanced := (hf.pushText separator).append hg
    refine (ih grown others).trans ?_
    rw [(hf.pushText separator).stream_append hg, stream_pushText, List.flatMap_cons,
      List.append_assoc, List.append_assoc, List.append_assoc]

end

/-- The streams of joined fragments have the separator between them. -/
theorem stream_join (separator : String) {parts : List Fragment}
    (hp : ∀ f ∈ parts, f.Balanced) :
    (join separator parts).stream = (StreamUnit.ofText separator).intercalate (parts.map stream) := by
  have spread : ∀ (first : List StreamUnit) (rest : List (List StreamUnit)),
      (StreamUnit.ofText separator).intercalate (first :: rest)
        = first ++ rest.flatMap fun us => StreamUnit.ofText separator ++ us := by
    intro first rest
    induction rest generalizing first with
    | nil => simp
    | cons next rest ih =>
      rw [List.intercalate_cons_cons, ih, List.flatMap_cons, List.append_assoc, List.append_assoc]
  cases parts with
  | nil => rfl
  | cons first rest =>
    obtain ⟨hf, others⟩ := List.forall_mem_cons.1 hp
    have started : empty.Balanced := rfl
    rw [join, stream_appendAll separator (started.append hf) others, started.stream_append hf,
      List.map_cons, spread, List.flatMap_map]
    rfl

/-! ## The monoid -/

/-- Fragments that operations build are the same, with related parameters, exactly if the units of
their streams are related and both are queries or neither. -/
theorem Built.forall₂_stream_iff (R : Value → Value → Prop) {f g : Fragment} (hf : f.Built)
    (hg : g.Built) : List.Forall₂ (StreamUnit.Related R) f.stream g.stream
      ↔ f.pieces = g.pieces ∧ List.Forall₂ R f.params g.params :=
  Piece.forall₂_stream_iff R hf.canonical hg.canonical hf.balanced hg.balanced

/-- Fragments that operations build have one stream only if they have the same pieces and
parameters. -/
theorem Built.stream_eq_iff {f g : Fragment} (hf : f.Built) (hg : g.Built) :
    f.stream = g.stream ↔ f.pieces = g.pieces ∧ f.params = g.params := by
  have units : StreamUnit.Related Eq = Eq :=
    funext fun _ => funext fun _ => propext StreamUnit.related_eq_iff
  simpa only [units, List.forall₂_eq_eq_eq] using hf.forall₂_stream_iff Eq hg

theorem Built.eq_iff {f g : Fragment} (hf : f.Built) (hg : g.Built) :
    f = g ↔ f.stream = g.stream ∧ f.isQuery = g.isQuery := by
  rw [hf.stream_eq_iff hg]
  obtain ⟨pieces, params, isQuery⟩ := f
  obtain ⟨others, more, isQuery'⟩ := g
  rw [mk.injEq, and_assoc]

/-- Appending may be done in any order. -/
theorem Built.append_assoc {f g h : Fragment} (hf : f.Built) (hg : g.Built) (hh : h.Built) :
    (f.append g).append h = f.append (g.append h) := by
  have left := hf.balanced.stream_append hg.balanced
  have right := hg.balanced.stream_append hh.balanced
  refine (((hf.append hg).append hh).eq_iff (hf.append (hg.append hh))).2 ⟨?_, rfl⟩
  rw [(hf.append hg).balanced.stream_append hh.balanced, left, List.append_assoc, ← right,
    ← hf.balanced.stream_append (hg.append hh).balanced]

/-- The empty fragment behind another adds nothing. -/
theorem append_empty (f : Fragment) : f.append empty = f := by
  obtain ⟨pieces, params, isQuery⟩ := f
  show Fragment.mk pieces (params ++ []) isQuery = _
  rw [List.append_nil]

/-- The empty fragment in front adds nothing, but the result is no query. -/
theorem Built.empty_append {f : Fragment} (hf : f.Built) :
    Fragment.empty.append f = { f with isQuery := false } := by
  have stream : (Fragment.empty.append f).stream = f.stream :=
    Built.empty.balanced.stream_append hf.balanced
  obtain ⟨pieces, params⟩ := ((Built.empty.append hf).stream_eq_iff hf).1 stream
  rw [← pieces, ← params]
  rfl

theorem beqList_iff {params more : List Value} : Value.beqList params more = true
    ↔ List.Forall₂ (fun v w => (v == w) = true) params more := by
  induction params generalizing more with
  | nil => cases more <;> simp [Value.beqList]
  | cons v params ih =>
    cases more with
    | nil => simp [Value.beqList]
    | cons w more =>
      rw [Value.beqList, Bool.and_eq_true, ih, List.forall₂_cons]
      rfl

/-- Identity of fragments that operations build, too, is that of their streams. -/
theorem Built.beq_eq {f g : Fragment} (hf : f.Built) (hg : g.Built) :
    (f == g) = (f.stream == g.stream && f.isQuery == g.isQuery) := by
  have same := hf.forall₂_stream_iff (fun v w => (v == w) = true) hg
  obtain ⟨pieces, params, isQuery⟩ := f
  obtain ⟨others, more, isQuery'⟩ := g
  show Fragment.beq _ _ = _
  rw [Fragment.beq, Bool.eq_iff_iff, Bool.and_eq_true, Bool.and_eq_true, Bool.and_eq_true,
    ← StreamUnit.forall₂_related_beq_iff, same, beqList_iff, beq_iff_eq]

/-- Fragments under appending are a monoid, but that a fragment appended to the empty one is no
query: the stream of an appended fragment follows the first one, and so does a text or a parameter
that is pushed; joined streams have the separator between them, and those in parentheses the
parentheses around them. What operations build has a parameter for each placeholder, no empty text
and no two texts side by side. So two such fragments are the same, and identical as values are,
exactly if their streams are and both are queries or neither. -/
theorem fragments_form_monoid {f g h : Fragment} (hf : f.Built) (hg : g.Built) (hh : h.Built) :
    (f.Balanced ∧ Piece.Canonical f.pieces) ∧
    (f.append g).stream = f.stream ++ g.stream ∧
    (∀ s, (f.pushText s).stream = f.stream ++ StreamUnit.ofText s) ∧
    (∀ v, (f.pushParam v).stream = f.stream ++ [.param v]) ∧
    (∀ separator parts, (∀ part ∈ parts, Built part) →
      (join separator parts).stream
        = (StreamUnit.ofText separator).intercalate (parts.map stream)) ∧
    (∀ opening closing, (f.wrapped opening closing).stream
      = StreamUnit.ofText opening ++ f.stream ++ StreamUnit.ofText closing) ∧
    (f.append g).append h = f.append (g.append h) ∧
    (f.append empty = f ∧ empty.append f = { f with isQuery := false }) ∧
    (f = g ↔ f.stream = g.stream ∧ f.isQuery = g.isQuery) ∧
    (f == g) = (f.stream == g.stream && f.isQuery == g.isQuery) := by
  refine ⟨⟨hf.balanced, hf.canonical⟩, hf.balanced.stream_append hg.balanced, stream_pushText f,
    hf.balanced.stream_pushParam, fun separator parts hp => ?_, hf.balanced.stream_wrapped,
    hf.append_assoc hg hh, ⟨append_empty f, hf.empty_append⟩, hf.eq_iff hg, hf.beq_eq hg⟩
  exact stream_join separator fun part here => (hp part here).balanced

/-- A comparison with a parameter. -/
def comparison : Fragment :=
  (ofText "\"b\" = ").pushParam (.integer 2)

/-- A comparison in parentheses. -/
def enclosed : Fragment :=
  ((ofText "\"a\" = ").pushParam (.integer 1)).wrapped "(" ")"

/-- A condition in parentheses behind another one, each with a parameter. -/
theorem fragments_form_monoid_nested :
    (comparison.Built ∧ (ofText " AND ").Built ∧ enclosed.Built) ∧
    (comparison.Balanced ∧ Piece.Canonical comparison.pieces) ∧
    (comparison.append (ofText " AND ")).stream = comparison.stream ++ (ofText " AND ").stream ∧
    (comparison.pushText " OR ").stream = comparison.stream ++ StreamUnit.ofText " OR " ∧
    (comparison.pushParam .null).stream = comparison.stream ++ [.param .null] ∧
    (join ", " [comparison, enclosed]).stream
      = (StreamUnit.ofText ", ").intercalate [comparison.stream, enclosed.stream] ∧
    (comparison.wrapped "(" ")").stream
      = StreamUnit.ofText "(" ++ comparison.stream ++ StreamUnit.ofText ")" ∧
    (comparison.append (ofText " AND ")).append enclosed
      = comparison.append ((ofText " AND ").append enclosed) ∧
    (comparison.append empty = comparison ∧
      empty.append comparison = { comparison with isQuery := false }) ∧
    (comparison = ofText " AND " ↔ comparison.stream = (ofText " AND ").stream ∧
      comparison.isQuery = (ofText " AND ").isQuery) ∧
    (comparison == ofText " AND ") = (comparison.stream == (ofText " AND ").stream &&
      comparison.isQuery == (ofText " AND ").isQuery) := by
  have left : comparison.Built := (Built.ofText _).pushParam _
  have middle : (ofText " AND ").Built := .ofText _
  have right : enclosed.Built := ((Built.ofText _).pushParam _).wrapped _ _
  obtain ⟨canonical, append, text, param, join, wrapped, laws⟩ :=
    fragments_form_monoid left middle right
  refine ⟨⟨left, middle, right⟩, canonical, append, text " OR ", param .null, join ", " _ ?_,
    wrapped "(" ")", laws⟩
  exact List.forall_mem_cons.2 ⟨left, List.forall_mem_singleton.2 right⟩

end Fragment

end QueryForms
