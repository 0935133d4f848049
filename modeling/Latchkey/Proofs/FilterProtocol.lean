import Latchkey.Proofs.Clients
import Latchkey.Proofs.Discipline

/-!
# The protocol of filter operations

A filter operation works on the key of its filter only. An addition sets bits of its element, and
all of them before it succeeds. Only a creation clears a bit, the last one, and only after the store
has answered that the key has no value. A test that fails to find an element has seen one of its
bits unset.

The main statement is `Operation.serves`.
-/

namespace Latchkey

variable {X : Extension}

namespace Operation

/-- Whether an operation is one of the filter with a plan. -/
def Uses (p : FilterPlan) : Operation → Prop
  | .createFilter s => FilterPlan.ofSettings s = .ok p
  | .addElement q _ => q = p
  | .testElement q _ => q = p
  | _ => False

/-- Whether an operation may write a bit of its filter after some exchanges. -/
def MayWrite (p : FilterPlan) (o : Operation) (log : List Exchange) (offset : Nat) : Bool → Prop
  | true => ∃ element, o = .addElement p element ∧ offset ∈ p.offsets element
  | false => offset = p.bits - 1 ∧ (∃ s, o = .createFilter s) ∧
      ∃ conn, ⟨.call (.command conn (.present p.name)), .ok false⟩ ∈ log

/-- The effects that an operation of a filter may perform after some exchanges. -/
def mayServe (p : FilterPlan) (o : Operation) (log : List Exchange) : Effect → Prop
  | .call (.nodeOwning _) => True
  | .call (.connect _) => True
  | .call (.command _ (.present _)) => True
  | .call (.command _ (.getBit ..)) => True
  | .call (.command _ (.setBit key offset bit)) => key = p.name ∧ o.MayWrite p log offset bit
  | .call (.command _ (.expire _ ms)) => p.expiration = some ms
  | .release _ => True
  | .count _ => True
  | _ => False

/-- What the exchanges of an operation of a filter have come to when it ends with an answer. -/
def Yields (p : FilterPlan) : (o : Operation) → List Exchange → o.Answer → Prop
  | .addElement _ element, log, r => r = .ok () → ∀ offset ∈ p.offsets element, ∃ conn b,
      ⟨.call (.command conn (.setBit p.name offset true)), .ok b⟩ ∈ log
  | .testElement _ element, log, r => r = .ok false → ∃ offset ∈ p.offsets element, ∃ conn,
      ⟨.call (.command conn (.getBit p.name offset)), .ok false⟩ ∈ log
  | _, _, _ => True

/-- How the operations of a filter use the store. -/
def service (p : FilterPlan) (o : Operation) : Discipline (List Exchange) := .ofLog (o.mayServe p)

end Operation

namespace FilterPlan

variable (p : FilterPlan) (element : String)

theorem setBits_serves (conn : Connection) {offsets : List Nat}
    (hoffsets : ∀ offset ∈ offsets, offset ∈ p.offsets element) (log : List Exchange) :
    (setBits (X := X) conn p.name offsets).run.Obeys
      ((Operation.addElement p element).service p) log fun log' r =>
        (∀ x ∈ log, x ∈ log') ∧ (r = .ok () → ∀ offset ∈ offsets, ∃ b,
          ⟨.call (.command conn (.setBit p.name offset true)), .ok b⟩ ∈ log') := by
  induction offsets generalizing log with
  | nil => exact ⟨fun _ hx => hx, fun _ offset hoffset => nomatch hoffset⟩
  | cons offset rest ih =>
    have hrest : ∀ offset ∈ rest, offset ∈ p.offsets element :=
      fun offset h => hoffsets offset (List.mem_cons_of_mem _ h)
    refine Action.ensures_bind.2 (Action.ensures_send.2 ?_)
    refine ⟨⟨rfl, element, rfl, hoffsets offset List.mem_cons_self⟩, fun r => ?_⟩
    rcases r with e | b
    · exact ⟨fun x hx => List.mem_append_left _ hx, fun h => nomatch h⟩
    · refine (ih hrest _).mono fun log' r h => ?_
      obtain ⟨hgrows, hset⟩ := h
      refine ⟨fun x hx => hgrows x (List.mem_append_left _ hx), fun hr offset' hmem => ?_⟩
      rcases List.mem_cons.1 hmem with rfl | hmem
      · exact ⟨b, hgrows _ (List.mem_append_right _ (List.mem_singleton.2 rfl))⟩
      · exact hset hr offset' hmem

theorem allSet_serves (conn : Connection) (offsets : List Nat) (log : List Exchange) :
    (allSet (X := X) conn p.name offsets).run.Obeys
      ((Operation.testElement p element).service p) log fun log' r =>
        r = .ok false → ∃ offset ∈ offsets,
          ⟨.call (.command conn (.getBit p.name offset)), .ok false⟩ ∈ log' := by
  induction offsets generalizing log with
  | nil => exact fun h => nomatch h
  | cons offset rest ih =>
    refine Action.ensures_bind.2 (Action.ensures_send.2 ⟨trivial, fun r => ?_⟩)
    rcases r with e | b
    · exact fun h => nomatch h
    · cases b with
      | false =>
        exact fun _ => ⟨offset, List.mem_cons_self,
          List.mem_append_right _ (List.mem_singleton.2 rfl)⟩
      | true =>
        refine (ih _).mono fun log' r h hr => ?_
        obtain ⟨offset', hmem, hx⟩ := h hr
        exact ⟨offset', List.mem_cons_of_mem _ hmem, hx⟩

/-- The last bit is cleared only where the store has answered that there is no value. -/
theorem prepare_serves {s : FilterSettings} (log : List Exchange) :
    (p.prepare (X := X)).run.Obeys ((Operation.createFilter s).service p) log fun _ _ => True := by
  have hend : ∀ {log : List Exchange} {conn : Connection},
      ((Operation.createFilter s).service p).interpretation.before log (.release conn)
        fun _ _ => True := ⟨trivial, fun _ => trivial⟩
  refine Action.ensures_withConnection.2 (Action.ensures_connectionFor.2 ⟨trivial, fun r => ?_⟩)
  rcases r with e | node
  · trivial
  · refine ⟨trivial, fun r => ?_⟩
    rcases r with e | conn
    · trivial
    · refine Action.ensures_bind.2 (Action.ensures_send.2 ⟨trivial, fun r => ?_⟩)
      rcases r with e | b
      · exact hend
      · cases b with
        | true => exact hend
        | false =>
          refine Action.ensures_bind.2 (Action.ensures_send.2 ⟨⟨rfl, rfl, ⟨s, rfl⟩, conn, ?_⟩, ?_⟩)
          · exact List.mem_append_right _ (List.mem_singleton.2 rfl)
          intro r
          rcases r with e | b
          · exact hend
          · cases hexp : p.expiration with
            | none => exact hend
            | some ms =>
              show Program.Ensures _ _ (ExceptT.run (if 0 < ms then _ else _)) _
              by_cases hpos : 0 < ms
              · rw [if_pos hpos]
                refine Action.ensures_bind.2 (Action.ensures_send.2 ⟨hexp, fun r => ?_⟩)
                rcases r with e | b <;> exact hend
              · rw [if_neg hpos]
                exact hend

end FilterPlan

open FilterPlan in
/-- Every operation of a filter uses the store as described. -/
theorem Operation.serves {p : FilterPlan} {o : Operation} (ho : o.Uses p) :
    (o.program (X := X)).Obeys (o.service p) [] (o.Yields p) := by
  cases o with
  | createFilter s =>
    have hs : ofSettings s = .ok p := ho
    show (create s).run.Obeys _ _ _
    unfold create
    rw [hs]
    refine Action.ensures_bind.2 (Action.ensures_orFail.2 ((p.prepare_serves []).mono ?_))
    intro log r _
    rcases r with e | b
    · trivial
    · exact ⟨trivial, fun _ => trivial⟩
  | addElement q element =>
    obtain rfl : q = p := ho
    refine Action.ensures_bind.2 (Action.ensures_orFail.2 (Action.ensures_withConnection.2 ?_))
    refine Action.ensures_connectionFor.2 ⟨trivial, fun r => ?_⟩
    rcases r with e | node
    · exact fun h => nomatch h
    · refine ⟨trivial, fun r => ?_⟩
      rcases r with e | conn
      · exact fun h => nomatch h
      · refine (q.setBits_serves element conn (fun _ h => h) _).mono fun log r h => ?_
        refine ⟨trivial, fun _ => ?_⟩
        rcases r with e | _
        · exact fun h => nomatch h
        · refine ⟨trivial, fun _ _ offset hoffset => ?_⟩
          obtain ⟨b, hmem⟩ := h.2 rfl offset hoffset
          exact ⟨conn, b, List.mem_append_left _ (List.mem_append_left _ hmem)⟩
  | testElement q element =>
    obtain rfl : q = p := ho
    refine Action.ensures_bind.2 (Action.ensures_perform.2 ⟨trivial, fun _ => ?_⟩)
    refine Action.ensures_orFail.2 (Action.ensures_withConnection.2 ?_)
    refine Action.ensures_connectionFor.2 ⟨trivial, fun r => ?_⟩
    rcases r with e | node
    · exact fun h => nomatch h
    · refine ⟨trivial, fun r => ?_⟩
      rcases r with e | conn
      · exact fun h => nomatch h
      · refine (q.allSet_serves element conn (q.offsets element) _).mono fun log r h => ?_
        refine ⟨trivial, fun _ hr => ?_⟩
        rcases r with e | b
        · cases hr
        · cases hr
          obtain ⟨offset, hoffset, hmem⟩ := h rfl
          exact ⟨offset, hoffset, conn, List.mem_append_left _ hmem⟩
  | _ => cases ho

end Latchkey
