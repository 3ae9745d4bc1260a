import PickleGraph.Proofs.Names.Listing
import PickleGraph.Proofs.Names.Spelling

/-!
# Names of one strategy are interchangeable

An item of a stream leads a machine and its renamed twin, which reads another
spelling, to a machine and its renamed twin again. The names stay unsettled all
along: a run only finds out which item each object has its name from.
-/

namespace PickleGraph

open Actions

namespace Execution

variable {options : Options} {nested : Decoding Value}
variable {before middle after : Machine} {opcode : Opcode}
variable {result : Option Value} {rest tail : Bytes} {depth : Nat}

/-! ## Single items -/

/-- Machines before the same opcode read it. -/
theorem exists_readOpcode {naming : Naming} {other : Machine}
    (read : readOpcode before = .ok opcode middle)
    (unread : before.source.reader.unread = opcode.code :: rest)
    (middleUnread : middle.source.reader.unread = rest)
    (related : Machine.Matches (opcode.code :: rest) (opcode.code :: tail)
      none depth (before.renamed naming) other) :
    ∃ next, readOpcode other = .ok opcode next ∧
      Machine.Matches rest tail none depth (middle.renamed naming) next := by
  have shifted : Reader.Matches ([opcode.code] ++ rest)
      ([opcode.code] ++ tail) none depth before.source.reader
      other.source.reader := related.reader
  have start : Machine.Matches rest tail none depth (before.renamed naming)
      other := ⟨shifted.shift unread, related.same⟩
  have ends : (middle.renamed naming).source.EndsBefore rest :=
    ⟨[], middleUnread.symm⟩
  exact follows_readOpcode _ _ _ _ start (readOpcode_renamed naming read) ends

/-! ## Other spellings of items -/

/-- Between two machines the items are run, and so is every other spelling of
them, from a machine under other names to a machine under other names. So many
items come before. -/
def Leads (registry : Registry) (depth place : Nat) (items : List Bytes)
    (before after : Machine) (runs : Machine → Machine → Prop) : Prop :=
  ∀ origin : Origin, ∃ further : Origin,
    ∀ past future later bytes tail other, past.length = place →
      Respelling registry items future bytes →
      Machine.Matches before.source.reader.unread (bytes ++ tail) none depth
        (before.renamed (origin.naming (past ++ (future ++ later)))) other →
      ∃ next, runs other next ∧
        Machine.Matches after.source.reader.unread tail none depth
          (after.renamed (further.naming (past ++ (future ++ later)))) next

variable {registry : Registry} {place : Nat}

theorem Leads.trans {items others : List Bytes} {value : Value}
    {last : Machine}
    (first : Leads registry depth place items before middle fun other next =>
      step options (nestedPickle options) other = .ok none next)
    (second : Leads registry depth (place + items.length) others middle last
      fun other next => runToEnd options other = .ok value next) :
    Leads registry depth place (items ++ others) before last
      fun other next => runToEnd options other = .ok value next := by
  intro origin
  obtain ⟨between, first⟩ := first origin
  obtain ⟨further, second⟩ := second between
  refine ⟨further, fun past future later bytes tail other length respelling
    start => ?_⟩
  obtain ⟨early, late, opening, ending, rfl, rfl, count, isFirst, isSecond⟩ :=
    respelling.exists_of_append
  have names : past ++ (early ++ late ++ later) =
      past ++ (early ++ (late ++ later)) := by
    rw [List.append_assoc early]
  have regrouped : past ++ (early ++ late ++ later) =
      past ++ early ++ (late ++ later) := by
    rw [names, List.append_assoc]
  have counted : (past ++ early).length = place + items.length := by
    rw [List.length_append, length, count]
  rw [names, List.append_assoc] at start
  obtain ⟨next, stepped, start⟩ :=
    first past early (late ++ later) opening (ending ++ tail) other length
      isFirst start
  rw [← names, regrouped] at start
  obtain ⟨last, finished, ends⟩ :=
    second (past ++ early) late later ending tail next counted isSecond start
  rw [← regrouped] at ends
  exact ⟨last, (runToEnd_of_step stepped).trans finished, ends⟩

/-- The rest of an item that names no type is the same in every spelling. -/
theorem leads_kept {payload : Bytes}
    (unread : before.source.reader.unread =
      opcode.code :: (payload ++ after.source.reader.unread))
    (read : readOpcode before = .ok opcode middle)
    (middleUnread : middle.source.reader.unread =
      payload ++ after.source.reader.unread)
    (performed : perform options (nestedPickle options) opcode middle =
      .ok result after)
    (noFrame : opcode ≠ .frame)
    (namesNothing : ∀ instruct, ¬ opcode.NamesType instruct) :
    Leads registry depth place [opcode.code :: payload] before after
      fun other next =>
        step options (nestedPickle options) other = .ok result next := by
  intro origin
  obtain ⟨further, again⟩ := transfers_perform
    (transfers_nestedPickle options) opcode middle result after performed
    origin
  refine ⟨further, fun past future later bytes tail other length respelling
    start => ?_⟩
  rcases respelling.single with
    ⟨rfl, rfl⟩ | ⟨_, _, _, _, _, _, namesType, _, _, _, item, _⟩
  · rw [unread, List.cons_append] at start
    obtain ⟨next, readAgain, start⟩ :=
      exists_readOpcode read unread middleUnread start
    have shifted := start.reader.shift middleUnread
    have ends : (after.renamed (further.naming
        (past ++ ([none] ++ later)))).source.EndsBefore
          after.source.reader.unread := List.suffix_rfl
    obtain ⟨last, performedAgain, still⟩ := follows_perform
      (readOn_nestedPickle options) (follows_nestedPickle options)
      (fun isFrame => absurd isFrame noFrame) _ next result _
      ⟨shifted, start.same⟩ (again _) ends
    exact ⟨last, (bind_of_eq_ok readAgain).trans performedAgain, still⟩
  · have same := code_injective (List.cons.inj item).1
    subst same
    exact absurd namesType (namesNothing _)

theorem getD_names {key? : Option TypeKey} {past later : List (Option TypeKey)}
    (length : past.length = place) :
    (past ++ ([key?] ++ later)).getD place none = key? := by
  subst length
  simp

theorem matches_record {naming : Naming} {last ended : Machine}
    (related : Machine.Matches rest tail none depth (last.renamed naming)
      ended) :
    Machine.Matches rest tail none depth
      ((last.record opcode).renamed naming) (ended.record opcode) := by
  refine ⟨related.reader, ?_⟩
  exact congrArg (fun machine : Machine =>
    { machine with history? := (ended.record opcode).history? }) related.same

/-- In another spelling the argument of an opcode names a type of the same
strategy. -/
theorem exists_argument {instruct : TypeKey → Instruction}
    (namesType : opcode.NamesType instruct) {payload lines : Bytes}
    {key : TypeKey} {key? : Option TypeKey} {naming : Naming}
    {ready other : Machine}
    (faces : middle.source.reader.Faces (payload ++ rest))
    (argued : decoding (Instruction.ofOpcode options.rules opcode) middle =
      .ok (instruct key) ready)
    (readyUnread : ready.source.reader.unread = rest)
    (respelling : Respelling options.registry [opcode.code :: payload] [key?]
      (opcode.code :: lines))
    (start : Machine.Matches (payload ++ rest) (lines ++ tail) none depth
      (middle.renamed naming) other) :
    options.registry.resolve (key?.getD key) =
        options.registry.resolve key ∧
      ∃ next, decoding (Instruction.ofOpcode options.rules opcode) other =
          .ok (instruct (key?.getD key)) next ∧
        Machine.Matches rest tail none depth (ready.renamed naming) next := by
  obtain ⟨source, read, rfl⟩ := decoding_eq_ok_iff.mp argued
  rcases respelling.single with ⟨kept, sameBytes⟩ |
    ⟨_, _, spelled, named, otherPayload, otherLines, _, spells, spellsOther,
      same, item, renamed, bytes⟩
  · obtain rfl := List.singleton_inj.mp kept
    obtain ⟨_, rfl⟩ := List.cons.inj sameBytes
    have direct := Instruction.direct_ofOpcode options.rules opcode
    have again : decoding (Instruction.ofOpcode options.rules opcode)
        (middle.renamed naming) =
          .ok (instruct key) (Machine.renamed { middle with source } naming) :=
      decoding_eq_ok_iff.mpr ⟨_, direct.renamed naming read, rfl⟩
    have shifted := start.reader.shift faces.unread
    have ends : (Machine.renamed { middle with source }
        naming).source.EndsBefore rest := ⟨[], readyUnread.symm⟩
    have follows : Follows rest tail none depth
        (decoding (Instruction.ofOpcode options.rules opcode))
        (decoding (Instruction.ofOpcode options.rules opcode)) :=
      follows_decoding (direct.parallel.follows
        (readOn_nestedPickle options) (follows_nestedPickle options))
    exact ⟨rfl, follows _ _ _ _ ⟨shifted, start.same⟩ again ends⟩
  · obtain rfl := List.singleton_inj.mp renamed
    obtain ⟨_, rfl⟩ := List.cons.inj item
    obtain ⟨_, rfl⟩ := List.cons.inj bytes
    obtain ⟨after, further, readHere, readThere, still⟩ :=
      Instruction.exchange_ofOpcode namesType spells spellsOther start.reader
        faces
    have answered := readHere options.rules middle.source.heap
    have read := read.symm.trans answered
    have sameKey := namesType.injective (EStateM.Result.ok.inj read).1
    have sameSource := (EStateM.Result.ok.inj read).2
    subst sameKey
    subst sameSource
    refine ⟨same, _, decoding_eq_ok_iff.mpr
      ⟨_, readThere options.rules other.source.heap, rfl⟩, still, ?_⟩
    exact congrArg (fun machine : Machine =>
      { machine with source := ⟨further, machine.source.heap⟩ }) start.same

/-- An opcode that names a type may name it by another name. -/
theorem leads_named {payload : Bytes} {instruct : TypeKey → Instruction}
    (namesType : opcode.NamesType instruct)
    (unread : before.source.reader.unread =
      opcode.code :: (payload ++ after.source.reader.unread))
    (read : readOpcode before = .ok opcode middle)
    (middleFaces : middle.source.reader.Faces
      (payload ++ after.source.reader.unread))
    (performed : perform options nested opcode middle = .ok result after) :
    Leads options.registry depth place [opcode.code :: payload] before after
      fun other next => step options nested other = .ok result next := by
  intro origin
  obtain ⟨instruction, ready, last, argued, executed, recorded⟩ :=
    perform_eq_ok_iff.mp performed
  obtain ⟨key, rfl⟩ : ∃ key, instruction = instruct key := by
    obtain ⟨source, read, _⟩ := decoding_eq_ok_iff.mp argued
    exact Instruction.exists_key_of_namesType namesType read
  have stationary : ∀ named,
      Stationary (execute options nested (instruct named)) := by
    intro named
    refine stationary_execute options nested _ (fun size same => ?_) ?_
    · cases namesType <;> cases same
    · cases namesType <;> rintro ⟨⟩
  have sameSource : after.source = last.source := by
    rw [recorded]
    cases result <;> rfl
  have stays : last.source.reader = ready.source.reader := by
    have stays := (stationary key).source_reader ready
    rw [executed] at stays
    exact stays
  have readyUnread : ready.source.reader.unread =
      after.source.reader.unread := by
    rw [sameSource, stays]
  obtain ⟨further, again⟩ := execute_named namesType executed origin place
  refine ⟨further, fun past future later bytes tail other length respelling
    start => ?_⟩
  obtain ⟨key?, lines, rfl, rfl⟩ := respelling.exists_lines
  rw [unread, List.cons_append] at start
  obtain ⟨between, readAgain, start⟩ :=
    exists_readOpcode read unread middleFaces.unread start
  obtain ⟨same, armed, arguedAgain, start⟩ := exists_argument namesType
    middleFaces argued readyUnread respelling start
  have isOther : key?.getD key =
      ((past ++ ([key?] ++ later)).getD place none).getD key := by
    rw [getD_names length]
  have executedAgain := again _ _ isOther same
  have ends : (last.renamed (further.naming
      (past ++ ([key?] ++ later)))).source.EndsBefore
        after.source.reader.unread := by
    refine ⟨[], ?_⟩
    rw [sameSource]
    rfl
  obtain ⟨ended, executedThere, still⟩ :=
    (stationary (key?.getD key)).follows _ _ _ _ start executedAgain ends
  refine ⟨_, (bind_of_eq_ok readAgain).trans (perform_eq_ok_iff.mpr
    ⟨_, _, _, arguedAgain, executedThere, rfl⟩), ?_⟩
  rw [sameSource] at still
  rw [recorded]
  cases result with
  | none => exact matches_record still
  | some value => exact still

/-! ## Pickles inside -/

variable {ready within : Machine} {target : Address × Record}

/-- The machine after the pickle inside, with the array it stands for. -/
def filledWith (ready : Machine) (place : Address) (reader : Reader)
    (array : Value) (heap : Heap) : Machine :=
  Machine.record
    { ready with
      source := ⟨reader, heap⟩
      stack := array :: ready.stack.tail
      memo := Memo.replace place array ready.memo }
    .build

/-- What the pickle inside stands for is put in the place of the placeholder. -/
theorem OpensInside.step_eq (opens : OpensInside before ready target)
    {found array : Value} {source : Source} {heap : Heap}
    (decoded : nested ready.source = .ok found source)
    (standsFor : Payload.StandsFor source.heap found array heap) :
    step options nested before =
      .ok none (filledWith ready target.1 source.reader array heap) := by
  obtain ⟨middle, read, applied⟩ := opens.isOpened
  obtain ⟨name, strategy⟩ := opens.isArray
  obtain ⟨state, rest, record, _, _, _, isReady⟩ := applyToTop_eq_ok applied
  have stack : ready.stack = .object target.1 :: rest := by
    rw [isReady]
  have reads := Payload.readNested_of_standsFor decoded standsFor
  have materialized :
      materialize options nested .inline target.2 ready.source = _ :=
    opens.materialize_eq.trans reads
  have filled := fillPlaceholder_of_eq target.1 strategy stack materialized
  have given : giveState options nested middle = _ :=
    (congrFun (giveState_eq options nested) middle).trans
      ((bind_of_eq_ok applied).trans filled)
  have performed : perform options nested .build middle =
      .ok none (filledWith ready target.1 source.reader array heap) := by
    refine perform_eq_ok_iff.mpr
      ⟨.build, middle, _, rfl, bind_of_eq_ok given, ?_⟩
    unfold filledWith
    rw [stack]
    rfl
  exact (bind_of_eq_ok read).trans performed

/-- A machine under other names is about to do the same, and it will be
ready under the same names. -/
theorem OpensInside.exists_ready (opens : OpensInside before ready target)
    {naming : Naming} {other : Machine}
    (faces : before.source.reader.Faces before.source.reader.unread)
    (start : Machine.Matches before.source.reader.unread
      (Opcode.build.code :: tail) none depth (before.renamed naming) other) :
    ∃ armed, OpensInside other armed
        (target.1, target.2.named (naming target.1)) ∧
      Machine.Matches ready.source.reader.unread tail none depth
        (ready.renamed naming) armed := by
  obtain ⟨middle, read, applied⟩ := opens.isOpened
  obtain ⟨name, strategy⟩ := opens.isArray
  obtain ⟨header, holdsObjects, announces⟩ := opens.isAnnounced
  obtain ⟨more, unread, middleFaces⟩ := faces_of_readOpcode faces read
  have middleUnread := middleFaces.unread
  have stays : ready.source.reader = middle.source.reader := by
    have stays := Stationary.applyToTop.source_reader middle
    rw [applied] at stays
    exact stays
  rw [unread] at start
  obtain ⟨next, readAgain, start⟩ :=
    exists_readOpcode read unread middleUnread start
  have ends : (ready.renamed naming).source.EndsBefore more := by
    refine ⟨[], ?_⟩
    show more = ready.source.reader.unread
    rw [stays, middleUnread]
  obtain ⟨armed, appliedAgain, start⟩ := Stationary.applyToTop.follows _ next _ _
    start (applyToTop_renamed naming applied) ends
  have sameHeap : armed.source.heap = ready.source.heap.renamed naming :=
    start.heap
  refine ⟨armed, ⟨⟨next, readAgain, appliedAgain⟩, ⟨name, ?_⟩,
    ⟨header, holdsObjects, announces.renamed _ sameHeap⟩⟩, ?_⟩
  · rw [Record.strategy_named]
    exact strategy
  · rw [stays, middleUnread]
    exact start

/-- The opcode before a pickle inside is kept, so that only the items of the
pickle are spelled in another way. -/
theorem exists_respelling_inside {registry : Registry}
    {inner : List Bytes} {future : List (Option TypeKey)} {bytes : Bytes}
    (respelling : Respelling registry ([Opcode.build.code] :: inner) future
      bytes) :
    ∃ late ending, future = [none] ++ late ∧
      bytes = [Opcode.build.code] ++ ending ∧
      Respelling registry inner late ending := by
  have grouped : Respelling registry ([[Opcode.build.code]] ++ inner) future
      bytes := respelling
  obtain ⟨early, late, opening, ending, rfl, rfl, _, isFirst, isSecond⟩ :=
    grouped.exists_of_append
  obtain ⟨rfl, rfl⟩ : early = [none] ∧ opening = [Opcode.build.code] := by
    rcases isFirst.single with
      kept | ⟨_, _, _, _, _, _, namesType, _, _, _, item, _⟩
    · exact kept
    · obtain rfl := code_injective (List.cons.inj item).1
      cases namesType
  exact ⟨late, ending, rfl, rfl, isSecond⟩

/-- The opcodes of a pickle inside may name their types by other names, too. -/
theorem leads_inside {inner : List Bytes} {found : Value}
    (faces : before.source.reader.Faces before.source.reader.unread)
    (opens : OpensInside before ready target)
    (finished : runToEnd (nestedOptions options)
      (Machine.ofReader ready.source.reader ready.heap false) =
        .ok found within)
    (leads : Leads options.registry (depth + 1) (place + 1) inner
      (Machine.ofReader ready.source.reader ready.heap false) within
      fun other next =>
        runToEnd (nestedOptions options) other = .ok found next)
    (stepped : step options (nestedPickle options) before =
      .ok result after) :
    Leads options.registry depth place ([Opcode.build.code] :: inner) before
      after fun other next =>
        step options (nestedPickle options) other = .ok result next := by
  have decoded : nestedPickle options ready.source =
      .ok found ⟨within.source.reader.beneath, within.heap⟩ :=
    inside_eq_ok_iff.mpr ⟨within, finished, rfl⟩
  obtain ⟨_, _, array, heap, decodedHere, standsFor⟩ :=
    opens.exists_array stepped
  rw [decoded] at decodedHere
  cases decodedHere
  have filled : step options (nestedPickle options) before = _ :=
    opens.step_eq decoded standsFor
  rw [filled] at stepped
  cases stepped
  intro origin
  obtain ⟨further, again⟩ := leads origin
  refine ⟨further, fun past future later bytes tail other length respelling
    start => ?_⟩
  obtain ⟨late, ending, rfl, rfl, isSecond⟩ :=
    exists_respelling_inside respelling
  have names : past ++ ([none] ++ late ++ later) =
      past ++ [none] ++ (late ++ later) := by
    simp only [List.append_assoc]
  rw [names] at start ⊢
  have counted : (past ++ [none]).length = place + 1 := by
    rw [List.length_append, length, List.length_singleton]
  rw [List.append_assoc] at start
  obtain ⟨armed, armedOpens, start⟩ := opens.exists_ready faces start
  have innerStart : Machine.Matches ready.source.reader.unread
      (ending ++ tail) none (depth + 1)
      ((Machine.ofReader ready.source.reader ready.heap false).renamed
        (origin.naming (past ++ [none] ++ (late ++ later))))
      (Machine.ofReader armed.source.reader armed.heap false) := by
    refine ⟨.nested start.reader rfl, ?_⟩
    have heaps : armed.heap = ready.heap.renamed
        (origin.naming (past ++ [none] ++ (late ++ later))) := start.heap
    rw [heaps]
    rfl
  obtain ⟨innerNext, finishedAgain, innerEnd⟩ :=
    again (past ++ [none]) late later ending tail _ counted isSecond innerStart
  have decodedAgain : nestedPickle options armed.source =
      .ok found ⟨innerNext.source.reader.beneath, innerNext.heap⟩ :=
    inside_eq_ok_iff.mpr ⟨innerNext, finishedAgain, rfl⟩
  have standsAgain := standsFor.renamed
    (further.naming (past ++ [none] ++ (late ++ later)))
  have innerHeap : innerNext.heap = within.heap.renamed
      (further.naming (past ++ [none] ++ (late ++ later))) := innerEnd.heap
  rw [← innerHeap] at standsAgain
  refine ⟨_, armedOpens.step_eq decodedAgain standsAgain, ?_, ?_⟩
  · show Reader.Matches within.source.reader.beneath.unread _ _ _
      within.source.reader.beneath innerNext.source.reader.beneath
    rw [unread_beneath]
    exact innerEnd.reader.beneath
  · rw [start.same]
    rfl

/-! ## Whole streams -/

/-- Any single item may name its type, if it names one, by another name. -/
theorem leads_step {item : Bytes}
    (faces : before.source.reader.Faces
      (item ++ after.source.reader.unread))
    (noFrame : item.head? ≠ some Opcode.frame.code)
    (stepped : step options (nestedPickle options) before =
      .ok result after) :
    Leads options.registry depth place [item] before after
      fun other next =>
        step options (nestedPickle options) other = .ok result next := by
  obtain ⟨opcode, middle, payload, rfl, read, performed, middleFaces⟩ :=
    exists_payload (readOn_nestedPickle options) faces stepped
  have noFrame : opcode ≠ .frame := by
    rintro rfl
    exact noFrame rfl
  by_cases namesType : ∃ instruct, opcode.NamesType instruct
  · obtain ⟨instruct, namesType⟩ := namesType
    exact leads_named namesType faces.unread read middleFaces performed
  · exact leads_kept faces.unread read middleFaces.unread performed noFrame
      (not_exists.mp namesType)

/-- Without frames the items of a listing may be spelled otherwise. -/
theorem Listing.leads {machine last : Machine} {items : List Bytes}
    {value : Value} (listing : Listing options machine items value last)
    (faces : machine.source.reader.Faces machine.source.reader.unread)
    (noFrame : ∀ item ∈ items, item.head? ≠ some Opcode.frame.code)
    (depth place : Nat) :
    Leads options.registry depth place items machine last
      fun other next => runToEnd options other = .ok value next := by
  induction listing generalizing depth place with
  | last stepped bytes =>
      rw [bytes] at faces
      intro origin
      obtain ⟨further, again⟩ :=
        leads_step faces (noFrame _ List.mem_cons_self) stepped origin
      refine ⟨further, fun past future later bytes tail other length
        respelling start => ?_⟩
      obtain ⟨next, stepped, ends⟩ :=
        again past future later bytes tail other length respelling start
      exact ⟨next, runToEnd_of_finish stepped, ends⟩
  | next stepped bytes _ inductionHypothesis =>
      rw [bytes] at faces
      obtain ⟨noFirst, noLater⟩ := List.forall_mem_cons.mp noFrame
      have afterFaces := faces_of_step faces noFirst stepped
      exact (leads_step faces noFirst stepped).trans
        (inductionHypothesis afterFaces noLater depth _)
  | inside opens inner stepped _ innerHypothesis inductionHypothesis =>
      obtain ⟨noInner, noLater⟩ := List.forall_mem_append.mp noFrame
      obtain ⟨_, noInner⟩ := List.forall_mem_cons.mp noInner
      have innerLeads := innerHypothesis ⟨rfl, opens.faces faces⟩ noInner
        (depth + 1) (place + 1)
      exact (leads_inside faces opens inner.runToEnd_eq innerLeads
        stepped).trans (inductionHypothesis
          (opens.faces_of_step faces stepped) noLater depth _)

/-- Names of one strategy are interchangeable. Where opcodes of a stream without
frames name their types by other names of the same strategies, the stream
decodes to the same value in the same heap, but for the names: each object has
the name that the opcode of its origin has given it. The stream may be listed
with the pickles inside as parts of items or opcode by opcode. -/
theorem decode_respelling {content : Bytes} {value : Value} {heap : Heap}
    (decoded : options.decode content = .ok (value, heap)) :
    options.Lists content (options.items content) ∧
    options.Lists content (options.allItems content) ∧
    ∀ items, options.Lists content items →
      (∀ item ∈ items, item.head? ≠ some Opcode.frame.code) →
      ∃ origin : Origin, ∀ names bytes,
        Respelling options.registry items names bytes →
          ∀ rest, options.decode (bytes ++ rest) =
            .ok (value, heap.renamed (origin.naming names)) := by
  obtain ⟨last, finished, rfl⟩ := decode_eq_ok_iff.mp decoded
  have enough : (startOn content).size < content.length + 1 :=
    Nat.lt_succ_self _
  refine ⟨⟨value, last, listing_itemsFrom enough finished⟩,
    ⟨value, last, listing_allItemsFrom enough finished⟩, ?_⟩
  rintro items ⟨found, other, listing⟩ noFrame
  rw [listing.runToEnd_eq] at finished
  cases finished
  have whole : (startOn content).source.reader.Holds ([] ++ content) :=
    ⟨0, 0, rfl⟩
  obtain ⟨origin, again⟩ :=
    listing.leads whole.faces noFrame 0 0 fun _ => none
  refine ⟨origin, fun names bytes respelling rest => ?_⟩
  have start : Machine.Matches content (bytes ++ rest) none 0
      ((startOn content).renamed
        (Origin.naming (fun _ => none) ([] ++ (names ++ []))))
      (startOn (bytes ++ rest)) := by
    have other : (startOn (bytes ++ rest)).source.reader.Holds
        ([] ++ (bytes ++ rest)) := ⟨0, 0, rfl⟩
    exact ⟨.base whole (.of_holds other), rfl⟩
  obtain ⟨next, finishedAgain, ends⟩ :=
    again [] names [] bytes rest _ rfl respelling start
  refine decode_eq_ok_iff.mpr ⟨next, finishedAgain, ?_⟩
  rw [ends.same, List.nil_append, List.append_nil]
  rfl

/-- The type `o.p` of the registry is `m.n` under a newer name. -/
def renamedType : Options where
  registry := ⟨[(⟨[0x6D], [0x6E]⟩, ⟨.extension [0x74] .plain [] [], 0⟩),
    (⟨[0x6F], [0x70]⟩, ⟨.extension [0x74] .plain [] [], 0⟩)]⟩

/-- The pickle of an instance under the newer name of its type. -/
def renamedInstance : Bytes :=
  [0x63, 0x6F, 0x0A, 0x70, 0x0A] ++ ([0x29] ++ ([0x81] ++ ([0x29] ++
    ([0x62] ++ ([0x2E] ++ [])))))

theorem respelling_renamedInstance :
    Respelling renamedType.registry (renamedType.items plainInstance)
      [some ⟨[0x6F], [0x70]⟩, none, none, none, none, none]
      renamedInstance := by
  have items : renamedType.items plainInstance =
      [Opcode.global.code :: [0x6D, 0x0A, 0x6E, 0x0A], [0x29], [0x81],
        [0x29], [0x62], [0x2E]] := by
    decide +kernel
  have older : SpellsLines ⟨[0x6D], [0x6E]⟩ [0x6D, 0x0A, 0x6E, 0x0A] :=
    ⟨[0x6D], [0x6E], ⟨by decide, by decide +kernel⟩,
      ⟨by decide, by decide +kernel⟩, rfl⟩
  have newer : SpellsLines ⟨[0x6F], [0x70]⟩ [0x6F, 0x0A, 0x70, 0x0A] :=
    ⟨[0x6F], [0x70], ⟨by decide, by decide +kernel⟩,
      ⟨by decide, by decide +kernel⟩, rfl⟩
  rw [items]
  exact .rename .global older newer rfl
    (.keep (.keep (.keep (.keep (.keep .done)))))

/-- The instance under the newer name of its type is the same record but for the
name of the type. -/
theorem decode_renamedInstance :
    ∃ value heap, ∃ origin : Origin,
      renamedType.decode plainInstance = .ok (value, heap) ∧
        (heap.record? value).isSome = true ∧
        renamedType.decode (renamedInstance ++ []) =
          .ok (value, heap.renamed (origin.naming
            [some ⟨[0x6F], [0x70]⟩, none, none, none, none, none])) := by
  have success : (renamedType.decode plainInstance).toOption.any
      (fun found => (found.2.record? found.1).isSome) = true := by
    decide +kernel
  have noFrame : ∀ item ∈ renamedType.items plainInstance,
      item.head? ≠ some Opcode.frame.code := by
    decide +kernel
  generalize result : renamedType.decode plainInstance = outcome at success
  cases outcome with
  | error failure => exact absurd success Bool.false_ne_true
  | ok final =>
      obtain ⟨value, heap⟩ := final
      obtain ⟨isListed, _, isInterchangeable⟩ := decode_respelling result
      obtain ⟨origin, same⟩ := isInterchangeable _ isListed noFrame
      exact ⟨value, heap, origin, rfl, success,
        same _ _ respelling_renamedInstance []⟩

end Execution

end PickleGraph
