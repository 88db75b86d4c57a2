import Wardence.Lib.Threads
/-!
# A program among others

A program that was written for answers of its own runs in a world: each of its statements is
one of the world's, and its answer is read off the world the statement ran in.
-/
namespace Threads

variable {σ S τ T α β : Type}

namespace Code

def embed (g : S → T) (f : S → τ → σ) : {α : Type} → Code σ S α → Code τ T α
  | _, .done a => .done a
  | _, .raise => .raise
  | _, .act s k h => .act (g s) (fun w => (k (f s w)).embed g f) (h.embed g f)
  | _, .loop b k h => .loop (b.embed g f) (fun x => (k x).embed g f) (h.embed g f)

variable {g : S → T} {f : S → τ → σ}

theorem embed_graft (p : Code σ S α) (k : α → Code σ S β) (h : Code σ S β) :
    (p.graft k h).embed g f = (p.embed g f).graft (fun a => (k a).embed g f) (h.embed g f) := by
  induction p with
  | done | raise => rfl
  | act s c c' ihc ihc' => simp only [graft_act, embed, ihc, ihc']
  | loop b c c' _ ihc ihc' =>
    show Code.loop (b.embed g f) (fun x => ((c x).graft k h).embed g f) ((c'.graft k h).embed g f) = _
    simp only [ihc, ihc']
    rfl

theorem embed_bind (p : Code σ S α) (k : α → Code σ S β) :
    (p >>= k).embed g f = p.embed g f >>= fun a => (k a).embed g f := embed_graft p k .raise

theorem embed_ite {c : Prop} [Decidable c] (p q : Code σ S α) :
    (if c then p else q).embed g f = if c then p.embed g f else q.embed g f := by
  split <;> rfl

end Code

end Threads
