import MemoryLedger.Proofs.Context.Issued

/-!
# The ledger of a run

A `Ledger` is a plain list of handles with the lengths that were asked for, newest first. It is
kept by reading the operations of a run and their results only: a handle that an operation takes
out of use is struck wherever it stands, and one that is given out is written on top. The listing
of a context always shows exactly its ledger.
-/

namespace MemoryLedger

/-- Handles with the lengths that were asked for, newest first. -/
abbrev Ledger := List (Block × Nat)

namespace Ledger

/-- The ledger without the line of a handle, if there is one. -/
def strike (ledger : Ledger) : Option Block → Ledger
  | none => ledger
  | some block => ledger.eraseP fun line => line.1 = block

/-- The ledger after an operation with its result. -/
def update (ledger : Ledger) (op : Operation Block) : Except AllocError Outcome → Ledger
  | .error _ => ledger
  | .ok (.block block) => (block, op.length) :: ledger.strike op.ends
  | .ok _ => ledger.strike op.ends

/-- The ledger of all that was done since the context was created. -/
def ofHistory (past : List (Operation Block × Reply Outcome)) : Ledger :=
  past.foldl (fun ledger p => ledger.update p.1 p.2.result) []

lemma ofHistory_append (past : List (Operation Block × Reply Outcome)) (op : Operation Block)
    (reply : Reply Outcome) :
    ofHistory (past ++ [(op, reply)]) = (ofHistory past).update op reply.result := by
  simp [ofHistory]

end Ledger

namespace Context

/-- The lines for the blocks of a context. -/
def lines (c : Context) (entries : List Entry) : Ledger :=
  entries.map fun e => (e.handle c.id, e.length.toNat)

variable {c : Context} {entries entries' before after : List Entry} {e : Entry} {func : String}
  {block : Block} {block? : Option Block} {length : UInt64} {op : Operation Block}

/-! ### One operation -/

/-- Striking the handle of a block leaves the lines of the others. -/
lemma strike_lines (h : c.registry.Holds (before ++ e :: after))
    (hsize : c.registry.slots.size ≤ 2 ^ 32) (hname : c.Names block e) :
    (c.lines (before ++ e :: after)).strike (some block) = c.lines (before ++ after) := by
  have hblock : block = e.handle c.id := (names_iff_eq_handle h hsize (by simp)).mp hname
  have hbefore : ∀ line ∈ c.lines before, ¬ decide (line.1 = block) = true := by
    intro line hline heq
    obtain ⟨e', he', rfl⟩ := List.mem_map.mp hline
    exact handle_ne_of_append h hsize (List.mem_append_left _ he')
      ((of_decide_eq_true heq).trans hblock)
  have hlines : c.lines (before ++ e :: after) =
      c.lines before ++ (block, e.length.toNat) :: c.lines after := by
    rw [lines, List.map_append, List.map_cons, hblock]
    rfl
  rw [Ledger.strike, hlines, List.eraseP_append_right _ hbefore,
    List.eraseP_cons_of_pos (by simp)]
  exact List.map_append.symm

/-- The lines after a request are those that its result makes of the lines before. -/
lemma Served.lines {reply : Reply (Option Block)} (h : c.registry.Holds entries)
    (hsize : c.registry.slots.size ≤ 2 ^ 32)
    (hs : Served c func entries block? length reply entries') (hends : op.ends = block?)
    (hlength : length.toNat = op.length) :
    (c.lines entries).update op (reply.map outcome).result = reply.context.lines entries' := by
  cases hs with
  | refused | notGranted | notResized => rfl
  | freed hname =>
    show (c.lines _).strike op.ends = _
    rw [hends, strike_lines h hsize hname]
    rfl
  | allocated =>
    show (_, op.length) :: (c.lines _).strike op.ends = _
    rw [hends, ← hlength]
    rfl
  | resized hname =>
    show (_, op.length) :: (c.lines _).strike op.ends = _
    rw [hends, strike_lines h hsize hname, ← hlength]
    rfl

lemma Performed.lines {reply : Reply Outcome} (h : c.registry.Holds entries)
    (hsize : c.registry.slots.size ≤ 2 ^ 32) (hp : Performed c entries op reply entries') :
    (c.lines entries).update op reply.result = reply.context.lines entries' := by
  cases hp with
  | requested hop hs => exact hs.lines h hsize hop.ends_eq hop.length_eq
  | _ => rfl

/-! ### Runs -/

/-- As long as slot numbers fit 32 bits, the listing shows the ledger of the run, each block with
the size of its descriptor on top, and the handles of the ledger have the lengths that it says. -/
theorem run_ledger (hc : c.IsNew) (ops : List (Operation Block)) :
    ∃ last replies, c.run ops = .ok (last, replies) ∧
      (last.registry.slots.size ≤ 2 ^ 32 →
        (∃ infos, last.Lists infos ∧ infos.map (fun info => (info.block, info.size.toNat)) =
          (Ledger.ofHistory (ops.zip replies)).map
            fun line => (line.1, line.2 + descriptorSize.toNat)) ∧
        ∀ line ∈ Ledger.ofHistory (ops.zip replies), ∃ length,
          last.payloadLength line.1 = .ok (.ok length) ∧ length.toNat = line.2) := by
  obtain ⟨last, replies, entries, hrun, hlast, hledger⟩ :=
    hc.run (fun past c entries => c.registry.slots.size ≤ 2 ^ 32 →
        Ledger.ofHistory past = c.lines entries)
      (fun _ => rfl)
      (fun hc hledger hp hsize => by
        have hsize' := Nat.le_trans (hp.follows hc.holds).size_le hsize
        rw [Ledger.ofHistory_append, hledger hsize', hp.lines hc.holds hsize'])
      ops
  refine ⟨last, replies, hrun, fun hsize => ?_⟩
  rw [hledger hsize]
  refine ⟨⟨_, lists_of_holds hlast.holds, ?_⟩, ?_⟩
  · simp [lines, Entry.toNat_size, Function.comp_def]
  · intro line hline
    obtain ⟨e, he, rfl⟩ := List.mem_map.mp hline
    exact ⟨e.length, payloadLength_of_names hlast.holds he
      ((names_iff_eq_handle hlast.holds hsize he).mpr rfl), rfl⟩

/-- The block in the middle is resized and the oldest one is freed. -/
theorem run_ledger_resized_freed : ∃ last replies infos, (create 7 .system).run
      [.malloc 16, .malloc 8, .malloc 4, .realloc ⟨7, 1, 1⟩ 4 8, .free ⟨7, 0, 1⟩] =
        .ok (last, replies) ∧
    last.Lists infos ∧
    infos.map (fun info => (info.block, info.size.toNat)) = [(⟨7, 1, 2⟩, 88), (⟨7, 2, 1⟩, 60)] ∧
    ∃ length, last.payloadLength ⟨7, 1, 2⟩ = .ok (.ok length) ∧ length.toNat = 32 := by
  let ops : List (Operation Block) :=
    [.malloc 16, .malloc 8, .malloc 4, .realloc ⟨7, 1, 1⟩ 4 8, .free ⟨7, 0, 1⟩]
  obtain ⟨last, replies, hrun, hledger⟩ := run_ledger (.plain 7 .system) ops
  have hvalue : ((create 7 .system).run ops).map
      (fun p => (p.1.registry.slots.size, Ledger.ofHistory (ops.zip p.2))) =
      .ok (3, [(⟨7, 1, 2⟩, 32), (⟨7, 2, 1⟩, 4)]) := by decide +kernel
  rw [hrun] at hvalue
  obtain ⟨hsize, hlines⟩ := Prod.mk.inj (Except.ok.inj hvalue)
  obtain ⟨⟨infos, hlists, hinfos⟩, hlength⟩ := hledger (by simp [hsize])
  rw [hlines] at hinfos hlength
  exact ⟨last, replies, infos, hrun, hlists, hinfos, hlength _ List.mem_cons_self⟩

end Context

end MemoryLedger
