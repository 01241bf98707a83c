import DataBinding.Inspection
import DataBinding.Proofs.Affected
import DataBinding.Proofs.Coercion
import DataBinding.Proofs.Commuting
import DataBinding.Proofs.Currency
import DataBinding.Proofs.Display
import DataBinding.Proofs.Echo
import DataBinding.Proofs.Insertion
import DataBinding.Proofs.Notification
import DataBinding.Proofs.Skipping
import DataBinding.Proofs.Stability
import DataBinding.Proofs.Subscription.Disposal
import DataBinding.Proofs.Subscription.Exact
import DataBinding.Proofs.Subscription.Swapping
import DataBinding.Proofs.Subscription.Updating
import DataBinding.Proofs.Teardown
import DataBinding.Proofs.Template.Interpolation
import DataBinding.Proofs.Template.Listeners
import DataBinding.Proofs.Template.Listing
import DataBinding.Proofs.Template.Rendering
import DataBinding.Proofs.Template.Selection
import DataBinding.Proofs.Template.Unmounting
import DataBinding.Proofs.Writing
