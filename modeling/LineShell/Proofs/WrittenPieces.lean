import LineShell.Proofs.SinkWrites

/-!
# Pieces that are written to one file

Two streams that lead to one file write their pieces to it. A stream that appends begins at the end
that the file has at that moment, and any other one where its own last piece ended. No piece begins
behind the end of the file, so nothing of the file is lost but what later pieces cover: each octet
is that of the latest piece that covers its position.

## Implementation notes

`Piece.ofWrites` keeps the book on the pieces without a look at what the file holds, and
`Piece.overlay` is what they make of it. `Piece.Lies` ties the two together: it says that the book
knows the end of the file.
-/

namespace LineShell

variable {contents octets : Bytes} {start position : Nat}

/-- Octets that a stream wrote to a file, with the position of the first one. -/
structure Piece where
  sink : Sink
  start : Nat
  octets : Bytes
  deriving DecidableEq, Repr

namespace Piece

/-- The octet of a piece at a position that it covers. -/
def octet? (piece : Piece) (position : Nat) : Option UInt8 :=
  if piece.start ≤ position then piece.octets[position - piece.start]? else none

/-- The octet of the latest piece that covers a position. -/
def latest? (pieces : List Piece) (position : Nat) : Option UInt8 :=
  pieces.reverse.findSome? (·.octet? position)

/-- How many octets a stream has written. -/
def writtenBy (sink : Sink) (pieces : List Piece) : Nat :=
  ((pieces.filter (·.sink == sink)).flatMap (·.octets)).length

/-- The end of a file to which pieces were written, when it had some length before. -/
def endOf (held : Nat) (pieces : List Piece) : Nat :=
  pieces.foldl (fun length piece => max length (piece.start + piece.octets.length)) held

/-- The piece that is written next. It begins at the end of the file if its stream appends, and at
the offset of its stream otherwise, which is how much the stream has written. -/
def next (appends : Sink → Bool) (held : Nat) (pieces : List Piece) (written : Sink × Bytes) :
    Piece where
  sink := written.1
  start := if appends written.1 then endOf held pieces else writtenBy written.1 pieces
  octets := written.2

/-- The pieces that are written, behind those that were written before. -/
def extend (appends : Sink → Bool) (held : Nat) (pieces : List Piece)
    (writes : List (Sink × Bytes)) : List Piece :=
  writes.foldl (fun pieces written => pieces ++ [next appends held pieces written]) pieces

/-- The pieces that are written to a file of some length. -/
def ofWrites (appends : Sink → Bool) (held : Nat) (writes : List (Sink × Bytes)) : List Piece :=
  extend appends held [] writes

/-- What pieces make of the contents of a file. -/
def overlay (held : Bytes) (pieces : List Piece) : Bytes :=
  pieces.foldl (fun contents piece => writeOver contents piece.start piece.octets) held

/-- Pieces that a file holds one over the other, where no stream has got beyond the end of it. -/
structure Lies (appends : Sink → Bool) (held : Bytes) (pieces : List Piece) : Prop where
  length_eq : (overlay held pieces).length = endOf held.length pieces
  inside : ∀ sink, appends sink = false → writtenBy sink pieces ≤ endOf held.length pieces

variable {appends : Sink → Bool} {held : Bytes} {pieces : List Piece} {piece : Piece}
  {written : Sink × Bytes} {sink : Sink}

@[simp] theorem latest?_nil (position : Nat) : latest? [] position = none := rfl

theorem latest?_cons (piece : Piece) (pieces : List Piece) (position : Nat) :
    latest? (piece :: pieces) position =
      (latest? pieces position).or (piece.octet? position) := by
  simp [latest?, List.findSome?_append]

theorem endOf_append (held : Nat) (pieces : List Piece) (piece : Piece) :
    endOf held (pieces ++ [piece]) =
      max (endOf held pieces) (piece.start + piece.octets.length) := by
  simp [endOf]

theorem overlay_append (held : Bytes) (pieces : List Piece) (piece : Piece) :
    overlay held (pieces ++ [piece]) =
      writeOver (overlay held pieces) piece.start piece.octets := by
  simp [overlay]

theorem writtenBy_append (sink : Sink) (pieces : List Piece) (piece : Piece) :
    writtenBy sink (pieces ++ [piece]) =
      writtenBy sink pieces + if piece.sink = sink then piece.octets.length else 0 := by
  by_cases hsame : piece.sink = sink <;> simp [writtenBy, hsame]

@[simp] theorem extend_nil (appends : Sink → Bool) (held : Nat) (pieces : List Piece) :
    extend appends held pieces [] = pieces := rfl

@[simp] theorem extend_cons (appends : Sink → Bool) (held : Nat) (pieces : List Piece)
    (written : Sink × Bytes) (rest : List (Sink × Bytes)) :
    extend appends held pieces (written :: rest) =
      extend appends held (pieces ++ [next appends held pieces written]) rest := rfl

theorem extend_append (appends : Sink → Bool) (held : Nat) (pieces : List Piece)
    (before after : List (Sink × Bytes)) :
    extend appends held pieces (before ++ after) =
      extend appends held (extend appends held pieces before) after :=
  List.foldl_append ..

end Piece

theorem length_writeOver (hstart : start ≤ contents.length) :
    (writeOver contents start octets).length =
      max contents.length (start + octets.length) := by
  simp only [writeOver, List.length_append, List.length_take, List.length_replicate,
    List.length_drop]
  omega

theorem writeOver_nil (hstart : start ≤ contents.length) :
    writeOver contents start [] = contents := by
  simp [writeOver, Nat.sub_eq_zero_of_le hstart]

/-- Writing over contents changes the positions that are covered, and no other one. -/
theorem getElem?_writeOver (hstart : start ≤ contents.length) (sink : Sink) (position : Nat) :
    (writeOver contents start octets)[position]? =
      ((⟨sink, start, octets⟩ : Piece).octet? position).or contents[position]? := by
  have hgap : start - contents.length = 0 := Nat.sub_eq_zero_of_le hstart
  simp only [writeOver, hgap, List.replicate_zero, List.append_nil, Piece.octet?]
  by_cases hbefore : position < start
  · have hin : position < (contents.take start).length := by
      simp only [List.length_take]
      omega
    rw [List.append_assoc, List.getElem?_append_left hin, List.getElem?_take_of_lt hbefore,
      if_neg (Nat.not_le_of_lt hbefore), Option.none_or]
  · have htaken : (contents.take start).length = start := List.length_take_of_le hstart
    have hle : start ≤ position := Nat.le_of_not_lt hbefore
    rw [List.append_assoc, List.getElem?_append_right (htaken.symm ▸ hle), htaken, if_pos hle]
    by_cases hcovered : position - start < octets.length
    · rw [List.getElem?_append_left hcovered, List.getElem?_eq_getElem hcovered, Option.some_or]
    · have hbehind : octets.length ≤ position - start := Nat.le_of_not_lt hcovered
      have hsame : start + octets.length + (position - start - octets.length) = position := by
        omega
      rw [List.getElem?_append_right hbehind, List.getElem?_drop, hsame,
        List.getElem?_eq_none hbehind, Option.none_or]

namespace Piece

variable {appends : Sink → Bool} {held : Bytes} {pieces : List Piece} {written : Sink × Bytes}
  {sink : Sink}

theorem lies_nil (appends : Sink → Bool) (held : Bytes) : Lies appends held [] where
  length_eq := rfl
  inside _ _ := Nat.zero_le _

/-- The next piece begins within the file, or right at its end. -/
theorem Lies.start_le (h : Lies appends held pieces) (written : Sink × Bytes) :
    (next appends held.length pieces written).start ≤ (overlay held pieces).length := by
  rw [h.length_eq]
  simp only [next]
  split
  case isTrue => exact Nat.le_refl _
  case isFalse hruns => exact h.inside _ (by simpa using hruns)

theorem Lies.next (h : Lies appends held pieces) (written : Sink × Bytes) :
    Lies appends held (pieces ++ [next appends held.length pieces written]) where
  length_eq := by
    rw [overlay_append, endOf_append, length_writeOver (h.start_le written), h.length_eq]
  inside sink hruns := by
    have hinside := h.inside sink hruns
    rw [writtenBy_append, endOf_append]
    by_cases hsame : written.1 = sink
    · subst hsame
      simp only [Piece.next, hruns, if_true, Bool.false_eq_true, if_false]
      omega
    · simp only [Piece.next, hsame, if_false]
      omega

/-- What is written from some moment on covers what the file holds at that moment, and nothing else
becomes of it. -/
theorem Lies.exists_extend (h : Lies appends held pieces) (writes : List (Sink × Bytes)) :
    ∃ more, extend appends held.length pieces writes = pieces ++ more ∧
      Lies appends held (pieces ++ more) ∧
      ∀ position, (overlay held (pieces ++ more))[position]? =
        (latest? more position).or (overlay held pieces)[position]? := by
  induction writes generalizing pieces with
  | nil => exact ⟨[], by simp, by simpa using h, by simp⟩
  | cons written rest ih =>
      obtain ⟨more, hmore, hlies, hoctets⟩ := ih (h.next written)
      refine ⟨Piece.next appends held.length pieces written :: more, ?_, ?_, ?_⟩
      · simpa using hmore
      · simpa using hlies
      · intro position
        rw [List.append_assoc, List.singleton_append, overlay_append] at hoctets
        rw [hoctets, latest?_cons, Option.or_assoc]
        exact congrArg _ (getElem?_writeOver (h.start_le written) written.1 position)

/-- When all streams append, the pieces come one behind the other. -/
theorem Lies.overlay_extend (h : Lies appends held pieces) (hall : ∀ sink, appends sink = true)
    (writes : List (Sink × Bytes)) :
    overlay held (extend appends held.length pieces writes) =
      overlay held pieces ++ writes.flatMap (·.2) := by
  induction writes generalizing pieces with
  | nil => simp
  | cons written rest ih =>
      have hbehind : overlay held (pieces ++ [Piece.next appends held.length pieces written]) =
          overlay held pieces ++ written.2 := by
        rw [overlay_append]
        simp [Piece.next, hall, ← h.length_eq, writeOver]
      rw [extend_cons, ih (h.next written), hbehind, List.flatMap_cons, List.append_assoc]

/-- What a file holds after two streams wrote to it, if it had some contents before. -/
structure IsLeftBy (appends : Sink → Bool) (held : Bytes) (writes : List (Sink × Bytes))
    (contents : Bytes) : Prop where
  /-- The file ends where the last of its pieces ends, but not before it ended already. -/
  length_eq : contents.length = endOf held.length (ofWrites appends held.length writes)
  /-- Every position holds the octet of the latest piece that covers it. -/
  getElem?_eq : ∀ position, contents[position]? =
    (latest? (ofWrites appends held.length writes) position).or held[position]?
  /-- When all streams append, everything is there in the order in which it was written. -/
  appended : (∀ sink, appends sink = true) → contents = held ++ writes.flatMap (·.2)

theorem isLeftBy_overlay (appends : Sink → Bool) (held : Bytes) (writes : List (Sink × Bytes)) :
    IsLeftBy appends held writes (overlay held (ofWrites appends held.length writes)) := by
  obtain ⟨more, hmore, hlies, hoctets⟩ := (lies_nil appends held).exists_extend writes
  rw [List.nil_append] at hmore hlies hoctets
  rw [ofWrites, hmore]
  refine ⟨?_, ?_, fun hall => ?_⟩
  · rw [ofWrites, hmore]
    exact hlies.length_eq
  · intro position
    rw [ofWrites, hmore]
    exact hoctets position
  · rw [← hmore]
    exact (lies_nil appends held).overlay_extend hall writes

end Piece

end LineShell
